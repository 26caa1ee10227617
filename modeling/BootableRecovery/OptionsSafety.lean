import BootableRecovery.Options
import BootableRecovery.Boot

/-! What the options menus may ask of the device, over every run on every device. -/

namespace BootableRecovery.OptionsSafety

open Libc Menu Actions Accounting Options

def destroys : Op → Bool
  | .erase root => root ≠ "CACHE:"
  | .system command _ => command = sdparted ∨ command = dalvikRm ∨ command ∈ appsTargets
  | _ => false

def Settled (env : List (String × String)) : Prop :=
  env.lookup "SWAP_SIZE" = some "96" ∧ env.lookup "ETYPE" = some "ext3" ∧
    env.lookup "EXT_SIZE" ∈ [some "128", some "256", some "512"]

def usbWrite (exported : Bool) : Op → Option Bool
  | .system command _ =>
    if command = usbOn then (if exported then none else some true)
    else if command = usbOff then (if exported then some false else none)
    else some exported
  | _ => some exported

def usbState (ops : List Op) : Option Bool := ops.foldlM usbWrite false

def isErase : Op → Bool
  | .erase _ => true
  | _ => false

def formats : Boot.MenuChoice → List Op
  | .wipe _ => [.erase "DATA:", .erase "CACHE:"]
  | _ => []

structure Trace (k : KeyCodes) (budget : Nat) (read : List Int) (usb : Bool) (started : List Op)
    (usb' : Bool) : Prop where
  confirmed : started.countP destroys ≤ read.count k.home + budget
  wipes : ∃ choices : List Boot.MenuChoice, started.filter isErase = (choices.map formats).flatten
  settled : ∀ env, .system sdparted env ∈ started → Settled env
  usb : started.foldlM usbWrite usb = some usb'

def Leads (k : KeyCodes) (budget : Nat) (c c' : Console) : Prop :=
  ∃ read started, c.keys = read ++ c'.keys ∧ c'.ops = c.ops ++ started ∧
    c'.deletion.toNat ≤ read.count k.menu + c.deletion.toNat ∧
    Trace k budget read c.usbMs started c'.usbMs

lemma count_formats (choices : List Boot.MenuChoice) :
    ((choices.map formats).flatten).count (.erase "CACHE:") =
      ((choices.map formats).flatten).count (.erase "DATA:") := by
  induction choices with
  | nil => rfl
  | cons choice choices ih =>
    rw [List.map_cons, List.flatten_cons, List.count_append, List.count_append, ih]
    cases choice <;> rfl

def loudCommands : List (List UInt8) := [sdparted, dalvikRm, usbOn, usbOff] ++ appsTargets

def quiet : Op → Bool
  | .system command _ => command ∉ loudCommands
  | .erase _ => false
  | _ => true

section Trace

variable {k : KeyCodes} {a b : Nat} {read : List Int} {u u' : Bool} {s : List Op}

lemma Trace.append {r₂ : List Int} {u₂ : Bool} {s₂ : List Op} (h₁ : Trace k a read u s u₂)
    (h₂ : Trace k b r₂ u₂ s₂ u') : Trace k (a + b) (read ++ r₂) u (s ++ s₂) u' where
  confirmed := by
    have := h₁.confirmed
    have := h₂.confirmed
    simp only [List.countP_append, List.count_append]
    omega
  wipes :=
    let ⟨c₁, e₁⟩ := h₁.wipes
    let ⟨c₂, e₂⟩ := h₂.wipes
    ⟨c₁ ++ c₂, by rw [List.filter_append, e₁, e₂, List.map_append, List.flatten_append]⟩
  settled env h := (List.mem_append.mp h).elim (h₁.settled env) (h₂.settled env)
  usb := by rw [List.foldlM_append, h₁.usb]; exact h₂.usb

lemma Trace.mono (h : Trace k a read u s u') (hab : a ≤ b) : Trace k b read u s u' :=
  { h with confirmed := h.confirmed.trans (by omega) }

lemma Trace.home (h : Trace k (a + 1) read u s u') : Trace k a (k.home :: read) u s u' :=
  { h with confirmed := by have := h.confirmed; rw [List.count_cons_self]; omega }

lemma Trace.cons (h : Trace k a read u s u') (key : Int) : Trace k a (key :: read) u s u' :=
  { h with confirmed := h.confirmed.trans (by simp [List.count_cons]) }

lemma trace_nil (read : List Int) (u : Bool) : Trace k 0 read u [] u :=
  ⟨by simp, ⟨[], rfl⟩, by simp, rfl⟩

lemma trace_quiet {op : Op} (h : quiet op) (u : Bool) : Trace k 0 [] u [op] u := by
  cases op with
  | system command env =>
    simp only [quiet, loudCommands, appsTargets, List.cons_append, List.nil_append, List.mem_cons,
      List.mem_singleton, decide_eq_true_eq, not_or] at h
    obtain ⟨h₁, h₂, h₃, h₄, h₅, h₆, h₇⟩ := h
    refine ⟨?_, ⟨[], rfl⟩,
      fun _ e => absurd (Op.system.inj (List.mem_singleton.mp e)).1.symm h₁, ?_⟩
    · simp [destroys, appsTargets, h₁, h₂, h₅, h₆, h₇]
    · simp [usbWrite, h₃, h₄]
  | erase root => cases h
  | _ => exact ⟨Nat.zero_le _, ⟨[], rfl⟩, fun _ e => (nomatch List.mem_singleton.mp e), rfl⟩

lemma trace_quiets (h : ∀ op ∈ s, quiet op) (u : Bool) : Trace k 0 [] u s u := by
  induction s with
  | nil => exact trace_nil [] u
  | cons op s ih =>
    exact (trace_quiet (h op (.head _)) u).append (ih fun o ho => h o (.tail _ ho))

lemma quiet_prints (lines : List String) : ∀ op ∈ lines.map Op.print, quiet op :=
  fun _ h => by obtain ⟨_, -, rfl⟩ := List.mem_map.mp h; rfl

lemma trace_one {op : Op} (he : isErase op = false)
    (hs : ∀ env, op = .system sdparted env → Settled env) (hu : usbWrite u op = some u) :
    Trace k 1 [] u [op] u where
  confirmed := by simpa using @List.countP_le_length _ destroys [op]
  wipes := ⟨[], by simp [he]⟩
  settled env h := hs env (List.mem_singleton.mp h).symm
  usb := by simp [hu]

end Trace

lemma loud_commands : sdparted ≠ usbOn ∧ sdparted ≠ usbOff ∧ usbOff ≠ usbOn ∧
    (∀ command ∈ [usbOn, usbOff], command ≠ sdparted ∧ command ≠ dalvikRm ∧
      command ∉ appsTargets) ∧
    ∀ command ∈ dalvikRm :: appsTargets, command ≠ sdparted ∧ command ≠ usbOn ∧ command ≠ usbOff := by
  decide

section Leads

variable {k : KeyCodes} {m : Machine} {σ : Type} {ui : MenuUi σ} {a b : Nat}
  {c c₁ c' : Console}

lemma Leads.refl (c : Console) : Leads k 0 c c := ⟨[], [], rfl, by simp, by simp, trace_nil [] _⟩

lemma Leads.append (h₁ : Leads k a c c₁) (h₂ : Leads k b c₁ c') : Leads k (a + b) c c' := by
  obtain ⟨r₁, s₁, hk₁, ho₁, hd₁, ht₁⟩ := h₁
  obtain ⟨r₂, s₂, hk₂, ho₂, hd₂, ht₂⟩ := h₂
  exact ⟨r₁ ++ r₂, s₁ ++ s₂, by rw [hk₁, hk₂, List.append_assoc],
    by rw [ho₂, ho₁, List.append_assoc], by rw [List.count_append]; omega, ht₁.append ht₂⟩

lemma Leads.trans (h₁ : Leads k 0 c c₁) (h₂ : Leads k b c₁ c') : Leads k b c c' := by
  simpa using h₁.append h₂

lemma Leads.tail (h₁ : Leads k a c c₁) (h₂ : Leads k 0 c₁ c') : Leads k a c c' :=
  h₁.append h₂

lemma Leads.mono (h : Leads k a c c') (hab : a ≤ b) : Leads k b c c' :=
  let ⟨read, started, hk, ho, hd, ht⟩ := h
  ⟨read, started, hk, ho, hd, ht.mono hab⟩

lemma leads_quiets {s : List Op} (hk : c'.keys = c.keys) (ho : c'.ops = c.ops ++ s)
    (hd : c'.deletion = c.deletion) (hu : c'.usbMs = c.usbMs) (hs : ∀ op ∈ s, quiet op) :
    Leads k 0 c c' :=
  ⟨[], s, hk.symm, ho, by simp [hd], by rw [hu]; exact trace_quiets hs _⟩

lemma leads_ask {op : Op} (h : quiet op) : Leads k 0 c (c.ask op) :=
  leads_quiets rfl rfl rfl rfl (by simpa using h)

lemma leads_mount (root : String) : Leads k 0 c (c.ask (.mount root)) := leads_ask rfl

lemma leads_unmount (root : String) : Leads k 0 c (c.ask (.unmount root)) := leads_ask rfl

lemma leads_finish : Leads k 0 c (c.ask .finishRecovery) := leads_ask rfl

lemma leads_system {command : List UInt8} (h : command ∉ loudCommands) (env : List (String × String)) :
    Leads k 0 c (c.ask (.system command env)) :=
  leads_ask (decide_eq_true h)

lemma leads_say (lines : List String) : Leads k 0 c (c.say lines) :=
  leads_quiets rfl rfl rfl rfl (quiet_prints lines)

lemma leads_setenv (name value : String) : Leads k 0 c (c.setenv name value) :=
  leads_quiets rfl (List.append_nil _).symm rfl rfl (by simp)

lemma leads_deletion : Leads k 0 c { c with deletion := false } :=
  ⟨[], [], rfl, (List.append_nil _).symm, by simp, trace_nil [] _⟩

lemma leads_read (read : List Int) {keys : List Int} {deletion : Bool} (hk : c.keys = read ++ keys)
    (hd : deletion.toNat ≤ read.count k.menu + c.deletion.toNat) :
    Leads k 0 c { c with keys, deletion } :=
  ⟨read, [], hk, (List.append_nil _).symm, hd, trace_nil read _⟩

lemma leads_one {op : Op} (he : isErase op = false)
    (hs : ∀ env, op = .system sdparted env → Settled env) (hu : usbWrite c.usbMs op = some c.usbMs) :
    Leads k 1 c (c.ask op) :=
  ⟨[], [op], rfl, rfl, Nat.le_add_left _ _, trace_one he hs hu⟩

lemma leads_move {command : List UInt8} (hm : command ∈ dalvikRm :: appsTargets)
    (env : List (String × String)) : Leads k 1 c (c.ask (.system command env)) := by
  obtain ⟨h₁, h₂, h₃⟩ := loud_commands.2.2.2.2 command hm
  exact leads_one rfl (fun _ e => absurd (Op.system.inj e).1 h₁)
    (by simp [usbWrite, h₂, h₃])

lemma leads_sdparted {env : List (String × String)} (h : Settled env) :
    Leads k 1 c (c.ask (.system sdparted env)) :=
  leads_one rfl (fun _ e => (Op.system.inj e).2 ▸ h)
    (by simp [usbWrite, loud_commands.1, loud_commands.2.1])

lemma leads_wipe : Leads k 1 c ((c.eraseRoot "DATA:").eraseRoot "CACHE:") := by
  refine ⟨[], [.print ("Formatting " ++ "DATA:" ++ ".."), .erase "DATA:",
    .print ("Formatting " ++ "CACHE:" ++ ".."), .erase "CACHE:"], rfl,
    by simp only [Console.eraseRoot, Console.say, Console.ask, List.append_assoc]; rfl,
    Nat.le_add_left _ _, ?_⟩
  exact ⟨Nat.le_of_eq rfl, ⟨[.wipe true], rfl⟩, fun _ h => by simp at h, rfl⟩

lemma leads_usb : Leads k 0 c
    { (c.system m (if c.usbMs then usbOff else usbOn)).2 with usbMs := !c.usbMs } := by
  obtain ⟨h₁, h₂, h₃, h₄, -⟩ := loud_commands
  refine ⟨[], [.system (if c.usbMs then usbOff else usbOn) c.env], rfl, rfl, Nat.le_add_left _ _,
    ?_, ⟨[], rfl⟩, ?_, ?_⟩
  · cases c.usbMs <;> simp [destroys, h₄]
  · cases c.usbMs <;> simp [h₁, h₂]
  · cases c.usbMs <;> simp [usbWrite, h₃]

lemma select_leads {n : Nat} {chosen : Int} (h : select k ui n c = some (chosen, c')) :
    0 ≤ chosen ∧ Leads k 0 c c' := by
  obtain ⟨sel, hs, he⟩ := Option.map_eq_some'.mp h
  obtain ⟨rfl, rfl⟩ := Prod.mk.inj he
  obtain ⟨read, hr, hd⟩ := getMenuSelection_reads hs
  exact ⟨getMenuSelection_nonneg hs, leads_read read hr hd⟩

lemma confirmKey_cases {keys rest : List Int} {home : Bool}
    (h : confirmKey k keys = some (home, rest)) :
    ∃ key, keys = key :: rest ∧ home = decide (key = k.home) := by
  rcases keys with _ | ⟨key, rest⟩
  · cases h
  · obtain ⟨rfl, rfl⟩ := Prod.mk.inj (Option.some.inj h)
    exact ⟨key, rfl, rfl⟩

lemma confirm_leads {what : String} {home : Bool} (h : confirm k what c = some (home, c₁))
    (h₁ : Leads k (b + home.toNat) c₁ c') : Leads k b c c' := by
  obtain ⟨⟨home₀, keys⟩, hk, he⟩ := Option.map_eq_some'.mp h
  obtain ⟨rfl, rfl⟩ := Prod.mk.inj he
  obtain ⟨key, hkey, rfl⟩ := confirmKey_cases hk
  obtain ⟨read, started, hk₁, ho, hd, ht⟩ := h₁
  have hp := (trace_quiets (k := k) (quiet_prints (Tools.confirmKey what)) c.usbMs).append ht
  refine ⟨key :: read, _, by rw [hkey]; exact congrArg (key :: ·) hk₁,
    by rw [ho]; exact List.append_assoc _ _ _,
    hd.trans (Nat.add_le_add_right (List.count_le_count_cons _ _ _) _), ?_⟩
  by_cases hh : key = k.home
  · subst hh
    simp only [decide_True, Bool.toNat_true, Nat.zero_add, List.nil_append] at hp
    exact hp.home
  · simp only [decide_eq_false hh, Bool.toNat_false, Nat.add_zero, Nat.zero_add,
      List.nil_append] at hp
    exact hp.cons key

end Leads

/-! ### The sizes `make_part` sets -/

lemma partOption_ne_nine {option : Int} (h0 : 0 ≤ option) (h11 : option ≠ 11) :
    0 ≤ partOption option ∧ partOption option ≠ 9 := by
  unfold partOption
  split_ifs <;> omega

lemma extSize_of_ne_nine {option : Int} (h0 : 0 ≤ option) (h9 : option ≠ 9) :
    ∃ size, extSize option = some size ∧ size ∈ ["128", "256", "512"] := by
  rw [extSize, if_neg h9, Int.tmod_eq_emod h0 (by decide)]
  have : option % 3 = 0 ∨ option % 3 = 1 ∨ option % 3 = 2 := by omega
  rcases this with h | h | h <;> simp [h]

lemma settled_of_ne_nine {option : Int} {size : String} (h9 : option ≠ 9)
    (hs : size ∈ ["128", "256", "512"]) (env : List (String × String)) :
    Settled (("ETYPE", etype option) :: ("EXT_SIZE", size) :: ("SWAP_SIZE", swapSize option) :: env) := by
  refine ⟨by simp [List.lookup_cons, swapSize], by simp [List.lookup_cons, etype, h9], ?_⟩
  simpa [List.lookup_cons] using hs

def freshMachine : Machine := ⟨fun _ => 0, fun _ _ => false⟩

section Menus

variable {k : KeyCodes} {m : Machine} {σ : Type} {ui : MenuUi σ} {c c' : Console} {fuel : Nat}

lemma mountItem_leads (chosen : Int) (c : Console) : Leads k 0 c (mountItem m chosen c) := by
  unfold mountItem
  by_cases h₁ : 0 ≤ chosen ∧ chosen < 5
  · rw [if_pos h₁]
    dsimp only [Console.mount, Console.call]
    split_ifs
    · exact leads_unmount _
    · exact (leads_mount _).trans (leads_say _)
    · exact leads_mount _
  rw [if_neg h₁]
  by_cases h₂ : chosen = 6
  · rw [if_pos h₂]
    exact leads_usb
  · rw [if_neg h₂]
    exact .refl c

lemma mountLoop_leads {chosen : Int} (h : mountLoop m k ui fuel chosen c = some c') :
    Leads k 0 c c' := by
  induction fuel generalizing chosen c with
  | zero => cases h
  | succ fuel ih =>
    rw [mountLoop] at h
    rcases ite_eq_iff.mp h with ⟨-, h⟩ | ⟨-, h⟩
    · cases h
      exact .refl _
    obtain ⟨⟨chosen, c₁⟩, hs, h⟩ := Option.bind_eq_some.mp h
    exact (select_leads hs).2.trans (leads_deletion.trans
      ((mountItem_leads _ _).trans (ih h)))

lemma makePart_leads {option : Int} (h0 : 0 ≤ option) (h11 : option ≠ 11)
    (h : makePart m k option c = some c') : Leads k 0 c c' := by
  obtain ⟨⟨home, c₁⟩, hc, h⟩ := Option.bind_eq_some.mp h
  refine confirm_leads hc ?_
  dsimp only [Console.system, Console.call] at h
  cases home
  · simp only [Bool.false_eq_true, if_false, Option.some.injEq] at h
    subst h
    exact leads_say _
  rw [if_pos rfl] at h
  cases h
  obtain ⟨hp0, hp9⟩ := partOption_ne_nine h0 h11
  obtain ⟨size, hsize, hs⟩ := extSize_of_ne_nine hp0 hp9
  rw [hsize]
  exact (leads_say _).trans ((leads_setenv _ _).trans ((leads_setenv _ _).trans
    ((leads_setenv _ _).trans ((leads_sdparted (settled_of_ne_nine hp9 hs _)).tail (leads_say _)))))

lemma sdPartLoop_leads (h : sdPartLoop m k ui fuel c = some c') : Leads k 0 c c' := by
  induction fuel generalizing c with
  | zero => cases h
  | succ fuel ih =>
    rw [sdPartLoop] at h
    obtain ⟨⟨chosen, c₁⟩, hs, h⟩ := Option.bind_eq_some.mp h
    obtain ⟨h0, hl⟩ := select_leads hs
    refine hl.trans ?_
    dsimp only at h
    rcases ite_eq_iff.mp h with ⟨-, h⟩ | ⟨hb, h⟩
    · exact ih h
    rcases ite_eq_iff.mp h with ⟨-, h⟩ | ⟨-, h⟩
    · cases h
      exact .refl _
    obtain ⟨c₂, hp, h⟩ := Option.bind_eq_some.mp h
    exact (makePart_leads h0 (by omega) hp).trans (ih h)

lemma sdPartOptions_leads (h : sdPartOptions m k ui fuel c = some c') : Leads k 0 c c' := by
  obtain ⟨⟨home, keys⟩, hk, h⟩ := Option.bind_eq_some.mp h
  obtain ⟨key, hkey, -⟩ := confirmKey_cases hk
  have hr : Leads k 0 c { c.say [caution] with keys } := (leads_say _).trans
    (leads_read [key] hkey (Nat.le_add_left _ _))
  dsimp only at h
  rcases ite_eq_iff.mp h with ⟨-, h⟩ | ⟨-, h⟩
  · exact hr.trans (sdPartLoop_leads h)
  · cases h
    exact hr.trans (leads_say _)

lemma mountAll_leads (roots : List String) (c : Console) : Leads k 0 c (mountAll m roots c).2 := by
  induction roots generalizing c with
  | nil => exact .refl c
  | cons root roots ih =>
    rw [mountAll]
    dsimp only [Console.mount, Console.call]
    split_ifs
    · exact (leads_mount _).trans (ih _)
    · exact leads_mount _

lemma appsMove_leads {here what failure : String} {roots : List String} {target : List UInt8}
    (ht : target ∈ appsTargets) (h : appsMove m k here what roots failure target c = some c') :
    Leads k 0 c c' := by
  obtain ⟨⟨home, c₁⟩, hc, h⟩ := Option.bind_eq_some.mp h
  refine (leads_say _).trans (confirm_leads hc ?_)
  dsimp only [Console.system, Console.call] at h
  cases home
  · simp only [Bool.false_eq_true, if_false, Option.some.injEq] at h
    subst h
    exact leads_say _
  rw [if_pos rfl] at h
  generalize hx : mountAll m roots c₁ = x at h
  obtain ⟨mounted, c₂⟩ := x
  have h₂ : Leads k 0 c₁ c₂ := by
    have := mountAll_leads (k := k) (m := m) roots c₁
    rwa [hx] at this
  refine h₂.trans ?_
  dsimp only at h
  rcases ite_eq_iff.mp h with ⟨-, h⟩ | ⟨-, h⟩ <;> cases h
  · exact (leads_move (.tail _ ht) _).tail (leads_say _)
  · exact (leads_say _).mono (by omega)

lemma appsTo_leads {found other : List UInt8} {already atOther atData what failure : String}
    {roots : List String} {target : List UInt8} (hf : found ∉ loudCommands)
    (ho : other ∉ loudCommands) (ht : target ∈ appsTargets)
    (h : appsTo m k found other already atOther atData what roots failure target c = some c') :
    Leads k 0 c c' := by
  unfold appsTo at h
  dsimp only [Console.system, Console.call] at h
  rcases ite_eq_iff.mp h with ⟨-, h⟩ | ⟨-, h⟩
  · cases h
    exact (leads_system hf _).trans (leads_say _)
  · exact (leads_system hf _).trans ((leads_system ho _).trans (appsMove_leads ht h))

lemma appsData_leads (h : appsData m k c = some c') : Leads k 0 c c' := by
  unfold appsData at h
  dsimp only [Console.system, Console.call] at h
  rcases ite_eq_iff.mp h with ⟨-, h⟩ | ⟨-, h⟩
  · cases h
    exact (leads_system (by decide) _).trans (leads_say _)
  · exact (leads_system (by decide) _).trans ((leads_system (by decide) _).trans
      (appsMove_leads (by decide) h))

lemma advancedItem_leads {chosen : Int} (h : advancedItem m k chosen c = some c') :
    Leads k 0 c c' := by
  unfold advancedItem at h
  rcases ite_eq_iff.mp h with ⟨-, h⟩ | ⟨-, h⟩
  · obtain ⟨⟨home, c₁⟩, hc, h⟩ := Option.bind_eq_some.mp h
    refine confirm_leads hc ?_
    dsimp only [Console.system, Console.mount, Console.call] at h
    cases home
    · simp only [Bool.false_eq_true, if_false, Option.some.injEq] at h
      subst h
      exact leads_say _
    rw [if_pos rfl] at h
    rcases ite_eq_iff.mp h with ⟨-, h⟩ | ⟨-, h⟩ <;> cases h
    · exact (leads_mount _).trans ((leads_say _).trans ((leads_move (.head _) _).tail (leads_say _)))
    · exact (leads_mount _).mono (by omega)
  rcases ite_eq_iff.mp h with ⟨-, h⟩ | ⟨-, h⟩
  · obtain ⟨⟨home, c₁⟩, hc, h⟩ := Option.bind_eq_some.mp h
    refine confirm_leads hc ?_
    dsimp only [Console.mount, Console.call] at h
    cases home
    · simp only [Bool.false_eq_true, if_false, Option.some.injEq] at h
      subst h
      exact leads_say _
    rw [if_pos rfl] at h
    rcases ite_eq_iff.mp h with ⟨-, h⟩ | ⟨-, h⟩ <;> cases h
    · exact (leads_mount _).trans ((leads_say _).trans (leads_wipe.tail (leads_say _)))
    · exact (leads_mount _).mono (by omega)
  rcases ite_eq_iff.mp h with ⟨-, h⟩ | ⟨-, h⟩
  · exact appsTo_leads (by decide) (by decide) (by decide) h
  rcases ite_eq_iff.mp h with ⟨-, h⟩ | ⟨-, h⟩
  · exact appsTo_leads (by decide) (by decide) (by decide) h
  rcases ite_eq_iff.mp h with ⟨-, h⟩ | ⟨-, h⟩
  · exact appsData_leads h
  · cases h
    exact .refl _

lemma advancedLoop_leads (h : advancedLoop m k ui fuel c = some c') : Leads k 0 c c' := by
  induction fuel generalizing c with
  | zero => cases h
  | succ fuel ih =>
    rw [advancedLoop] at h
    obtain ⟨⟨chosen, c₁⟩, hs, h⟩ := Option.bind_eq_some.mp h
    refine leads_finish.trans ((select_leads hs).2.trans ?_)
    dsimp only at h
    rcases ite_eq_iff.mp h with ⟨-, h⟩ | ⟨-, h⟩
    · cases h
      exact leads_deletion
    obtain ⟨c₂, hi, h⟩ := Option.bind_eq_some.mp h
    exact (advancedItem_leads hi).trans (ih h)

lemma optionsMenus_leads {initial : Int} {chosen : Int}
    (h : optionsMenus m k ui initial fuel chosen c = some c') : Leads k 0 c c' := by
  unfold optionsMenus at h
  rcases ite_eq_iff.mp h with ⟨-, h⟩ | ⟨-, h⟩
  · exact mountLoop_leads h
  rcases ite_eq_iff.mp h with ⟨-, h⟩ | ⟨-, h⟩
  · exact sdPartOptions_leads h
  rcases ite_eq_iff.mp h with ⟨-, h⟩ | ⟨-, h⟩
  · exact advancedLoop_leads h
  · cases h
    exact .refl _

def wipeKeys : List Int := [inputKeys.down, inputKeys.center, inputKeys.home, inputKeys.back]

def wiped : Console := ⟨[], false, false, [],
  [.finishRecovery] ++ (Tools.confirmKey "wipe your data").map .print ++
    [.mount "DATA:", .print "\nWiping data...", .print ("Formatting " ++ "DATA:" ++ ".."),
      .erase "DATA:", .print ("Formatting " ++ "CACHE:" ++ ".."), .erase "CACHE:",
      .print "\n\nData wipe complete", .finishRecovery]⟩

lemma optionsMenus_wipeKeys :
    optionsMenus freshMachine inputKeys clampUi 0 3 6 ⟨wipeKeys, false, false, [], []⟩ = some wiped := by
  decide

theorem optionsMenus_confirmed {initial chosen : Int}
    (h : optionsMenus m k ui initial fuel chosen c = some c') :
    ∃ read started, c.keys = read ++ c'.keys ∧ c'.ops = c.ops ++ started ∧
      started.countP destroys ≤ read.count k.home ∧
      started.count (.erase "CACHE:") ≤ started.count (.erase "DATA:") :=
  let ⟨read, started, hk, ho, _, ht⟩ := optionsMenus_leads h
  let ⟨_, e⟩ := ht.wipes
  ⟨read, started, hk, ho, by simpa using ht.confirmed, by
    rw [← List.count_filter (show isErase (.erase "CACHE:") from rfl),
      ← List.count_filter (show isErase (.erase "DATA:") from rfl), e, count_formats]⟩

theorem optionsMenus_confirmed_wipe :
    optionsMenus freshMachine inputKeys clampUi 0 3 6 ⟨wipeKeys, false, false, [], []⟩ = some wiped ∧
      ∃ read started, wipeKeys = read ++ wiped.keys ∧ wiped.ops = [] ++ started ∧
        started.countP destroys ≤ read.count inputKeys.home ∧
        started.count (.erase "CACHE:") ≤ started.count (.erase "DATA:") :=
  ⟨optionsMenus_wipeKeys, optionsMenus_confirmed optionsMenus_wipeKeys⟩

def partKeys : List Int := [inputKeys.home, inputKeys.center, inputKeys.home, inputKeys.back]

def partEnv : List (String × String) :=
  [("ETYPE", "ext3"), ("EXT_SIZE", "128"), ("SWAP_SIZE", "96")]

theorem optionsMenus_settled {initial chosen : Int}
    (h : optionsMenus m k ui initial fuel chosen c = some c') :
    ∀ env, .system sdparted env ∈ c'.ops → .system sdparted env ∈ c.ops ∨ Settled env := by
  obtain ⟨_, started, -, ho, -, ht⟩ := optionsMenus_leads h
  intro env he
  rw [ho, List.mem_append] at he
  exact he.imp_right (ht.settled env)

theorem optionsMenus_settled_part :
    ∃ c', optionsMenus freshMachine inputKeys clampUi 0 3 5 ⟨partKeys, false, false, [], []⟩ =
        some c' ∧ .system sdparted partEnv ∈ c'.ops ∧
      ∀ env, .system sdparted env ∈ c'.ops → .system sdparted env ∈ ([] : List Op) ∨ Settled env :=
  have h : optionsMenus freshMachine inputKeys clampUi 0 3 5 ⟨partKeys, false, false, [], []⟩ =
      some _ := rfl
  ⟨_, h, by decide, optionsMenus_settled h⟩

def usbKeys : List Int :=
  List.replicate 6 inputKeys.down ++ inputKeys.center :: List.replicate 6 inputKeys.down ++
    [inputKeys.center, inputKeys.back]

theorem optionsMenus_usb {initial chosen : Int}
    (h : optionsMenus m k ui initial fuel chosen c = some c') (hu : usbState c.ops = some c.usbMs) :
    usbState c'.ops = some c'.usbMs := by
  obtain ⟨_, started, -, ho, -, ht⟩ := optionsMenus_leads h
  rw [usbState, ho, List.foldlM_append, ← usbState, hu]
  exact ht.usb

theorem optionsMenus_usb_twice :
    optionsMenus freshMachine inputKeys clampUi 0 4 4 ⟨usbKeys, false, false, [], []⟩ =
        some ⟨[], false, false, [], [.system usbOn [], .system usbOff []]⟩ ∧
      usbState [] = some false ∧ usbState [.system usbOn [], .system usbOff []] = some false :=
  have h : optionsMenus freshMachine inputKeys clampUi 0 4 4 ⟨usbKeys, false, false, [], []⟩ =
      some ⟨[], false, false, [], [.system usbOn [], .system usbOff []]⟩ := by decide
  ⟨h, rfl, optionsMenus_usb h rfl⟩

theorem optionsMenus_formats {initial chosen : Int}
    (h : optionsMenus m k ui initial fuel chosen c = some c') :
    ∃ started, c'.ops = c.ops ++ started ∧
      ∃ choices : List Boot.MenuChoice, started.filter isErase = (choices.map formats).flatten :=
  let ⟨_, started, _, ho, _, ht⟩ := optionsMenus_leads h
  ⟨started, ho, ht.wipes⟩

theorem optionsMenus_formats_wipe :
    optionsMenus freshMachine inputKeys clampUi 0 3 6 ⟨wipeKeys, false, false, [], []⟩ = some wiped ∧
      ∃ started, wiped.ops = [] ++ started ∧
        ∃ choices : List Boot.MenuChoice, started.filter isErase = (choices.map formats).flatten :=
  ⟨optionsMenus_wipeKeys, optionsMenus_formats optionsMenus_wipeKeys⟩

end Menus

/-! ### The loop of `prompt_and_wait` with its items 4 to 6 -/

def LoopTrace (k : KeyCodes) (x y : World × DeviceIo) : Prop :=
  ∃ read started, x.1.keys = read ++ y.1.keys ∧ y.2.ops = x.2.ops ++ started ∧
    Trace k 0 read x.2.usbMs started y.2.usbMs

section Loop

variable {k : KeyCodes} {m : Machine} {σ : Type} {ui : MenuUi σ} {fs : Fs} {pathMax : Nat}
  {initial : Int} {fuel : Nat} {w w' : World} {io io' : DeviceIo} {leave : Menus.Leave}

lemma LoopTrace.trans {x y z : World × DeviceIo} (h₁ : LoopTrace k x y) (h₂ : LoopTrace k y z) :
    LoopTrace k x z :=
  let ⟨r₁, s₁, hk₁, ho₁, ht₁⟩ := h₁
  let ⟨r₂, s₂, hk₂, ho₂, ht₂⟩ := h₂
  ⟨r₁ ++ r₂, s₁ ++ s₂, by rw [hk₁, hk₂, List.append_assoc], by rw [ho₂, ho₁, List.append_assoc],
    ht₁.append ht₂⟩

lemma optionsStep_leads {chosen : Int} (h : optionsStep m k ui initial fuel chosen w io = some (w', io')) :
    Accounts k w w' ∧ LoopTrace k (w, io) (w', io') := by
  obtain ⟨c, hc, he⟩ := Option.map_eq_some'.mp h
  obtain ⟨rfl, rfl⟩ := Prod.mk.inj he
  obtain ⟨read, started, hk, ho, hd, ht⟩ := optionsMenus_leads hc
  exact ⟨⟨read, [], hk, by simp, by simp, by simpa using hd⟩, read, started, hk, ho, ht⟩

lemma promptAndWait_loopTrace
    (h : Options.promptAndWait m k ui fs pathMax initial fuel w io = some (leave, w', io')) :
    LoopTrace k (w, io) (w', io') :=
  promptLoop_rel (k := k) (R := LoopTrace k) (fun _ => ⟨[], [], rfl, by simp, trace_nil [] _⟩)
    LoopTrace.trans (fun _ ⟨read, _, hk, _⟩ => ⟨read, [], hk, by simp, trace_nil read _⟩)
    (fun _ _ _ _ _ e => (optionsStep_leads e).2) (by exact h)

def loopKeys : List Int :=
  List.replicate 6 inputKeys.down ++ inputKeys.center :: wipeKeys ++ List.replicate 7 inputKeys.down ++
    [inputKeys.center]

lemma promptAndWait_loopKeys :
    Options.promptAndWait freshMachine inputKeys clampUi zipFs 4096 0 3
        ⟨loopKeys, false, ⟨[], 0⟩, []⟩ ⟨false, [], []⟩ =
      some (.console, ⟨[], false, ⟨[], 0⟩, [.system Menus.consoleCommand]⟩, ⟨false, [], wiped.ops⟩) := by
  decide

theorem promptAndWait_options_accounts
    (h : Options.promptAndWait m k ui fs pathMax initial fuel w io = some (leave, w', io')) :
    Accounts k w w' :=
  promptLoop_accounts (fun _ _ _ _ _ e => (optionsStep_leads e).1) (by exact h)

theorem promptAndWait_options_accounts_wipe :
    Options.promptAndWait freshMachine inputKeys clampUi zipFs 4096 0 3
        ⟨loopKeys, false, ⟨[], 0⟩, []⟩ ⟨false, [], []⟩ =
      some (.console, ⟨[], false, ⟨[], 0⟩, [.system Menus.consoleCommand]⟩, ⟨false, [], wiped.ops⟩) ∧
    Accounts inputKeys ⟨loopKeys, false, ⟨[], 0⟩, []⟩ ⟨[], false, ⟨[], 0⟩, [.system Menus.consoleCommand]⟩ :=
  ⟨promptAndWait_loopKeys, promptAndWait_options_accounts promptAndWait_loopKeys⟩

theorem promptAndWait_device
    (h : Options.promptAndWait m k ui fs pathMax initial fuel w io = some (leave, w', io')) :
    ∃ read started, w.keys = read ++ w'.keys ∧ io'.ops = io.ops ++ started ∧
      started.countP destroys ≤ read.count k.home ∧
      (∃ choices : List Boot.MenuChoice, started.filter isErase = (choices.map formats).flatten) ∧
      (∀ env, .system sdparted env ∈ started → Settled env) ∧
      (usbState io.ops = some io.usbMs → usbState io'.ops = some io'.usbMs) := by
  obtain ⟨read, started, hk, ho, ht⟩ := promptAndWait_loopTrace h
  refine ⟨read, started, hk, ho, by simpa using ht.confirmed, ht.wipes, ht.settled, fun hu => ?_⟩
  rw [usbState, ho, List.foldlM_append, ← usbState, hu]
  exact ht.usb

theorem promptAndWait_device_wipe :
    Options.promptAndWait freshMachine inputKeys clampUi zipFs 4096 0 3
        ⟨loopKeys, false, ⟨[], 0⟩, []⟩ ⟨false, [], []⟩ =
      some (.console, ⟨[], false, ⟨[], 0⟩, [.system Menus.consoleCommand]⟩, ⟨false, [], wiped.ops⟩) ∧
    ∃ read started, loopKeys = read ++ [] ∧ wiped.ops = [] ++ started ∧
      started.countP destroys ≤ read.count inputKeys.home ∧
      (∃ choices : List Boot.MenuChoice, started.filter isErase = (choices.map formats).flatten) ∧
      (∀ env, .system sdparted env ∈ started → Settled env) ∧
      (usbState [] = some false → usbState wiped.ops = some false) :=
  ⟨promptAndWait_loopKeys, promptAndWait_device promptAndWait_loopKeys⟩

end Loop

/-! ### Apps2Data's test the other way round -/

inductive AppsAt
  | data
  | sd
  | cache
deriving DecidableEq

def AppsAt.target : AppsAt → List UInt8
  | .data => ascii "appsto data"
  | .sd => ascii "appsto sd"
  | .cache => ascii "appsto cache"

def AppsAt.ofOp : Op → Option AppsAt
  | .system command _ => [AppsAt.data, .sd, .cache].find? (·.target = command)
  | _ => none

def AppsAt.movedTo (result : List Op → Int) (history : List Op) (place : AppsAt) (op : Op) :
    AppsAt :=
  match AppsAt.ofOp op with
  | some moved => if result history = 0 then moved else place
  | none => place

def appsPlaceAfter (result : List Op → Int) : List Op → AppsAt → List Op → AppsAt
  | _, place, [] => place
  | history, place, op :: ops =>
    appsPlaceAfter result (history ++ [op]) (place.movedTo result (history ++ [op]) op) ops

def appsPlace (result : List Op → Int) (start : AppsAt) (ops : List Op) : AppsAt :=
  appsPlaceAfter result [] start ops

def Reports (m : Machine) (start : AppsAt) : Prop :=
  ∀ ops env,
    (m.result (ops ++ [.system (ascii "readlink /data/app") env]) = 0 ↔
      appsPlace m.result start ops ≠ .data) ∧
    (m.result (ops ++ [.system (ascii "readlink /data/app | grep sd") env]) = 0 ↔
      appsPlace m.result start ops = .sd) ∧
    (m.result (ops ++ [.system (ascii "readlink /data/app | grep cache") env]) = 0 ↔
      appsPlace m.result start ops = .cache)

def Spares (m : Machine) (start : AppsAt) (c c' : Console) : Prop :=
  ∃ s, c'.ops = c.ops ++ s ∧ ∀ pre post (place : AppsAt) env,
    s = pre ++ .system place.target env :: post → appsPlace m.result start (c.ops ++ pre) ≠ place

def Quiet (c c' : Console) : Prop :=
  ∃ s, c'.ops = c.ops ++ s ∧ ∀ op ∈ s, AppsAt.ofOp op = none

lemma AppsAt.target_mem (place : AppsAt) : place.target ∈ appsTargets := by
  cases place <;> decide

lemma AppsAt.target_inj {place other : AppsAt} (h : other.target = place.target) : other = place := by
  revert h
  cases place <;> cases other <;> decide

@[simp]
lemma AppsAt.ofOp_target (place : AppsAt) (env : List (String × String)) :
    AppsAt.ofOp (.system place.target env) = some place := by
  cases place <;> rfl

lemma AppsAt.ofOp_of_not_mem {command : List UInt8} (h : command ∉ appsTargets)
    (env : List (String × String)) : AppsAt.ofOp (.system command env) = none :=
  List.find?_eq_none.mpr fun place _ e => h (of_decide_eq_true e ▸ place.target_mem)

lemma AppsAt.ofOp_eq_some {op : Op} {place : AppsAt} (h : AppsAt.ofOp op = some place) :
    ∃ env, op = .system place.target env := by
  cases op <;> try cases h
  case system command env =>
    dsimp only [AppsAt.ofOp] at h
    have e := List.find?_some h
    exact ⟨env, by rw [of_decide_eq_true e]⟩

section Place

variable {result result' : List Op → Int} {history : List Op} {place : AppsAt}

lemma AppsAt.movedTo_of_none {op : Op} (h : AppsAt.ofOp op = none) :
    place.movedTo result history op = place := by
  rw [AppsAt.movedTo, h]

lemma appsPlaceAfter_append (ops rest : List Op) :
    appsPlaceAfter result history place (ops ++ rest) =
      appsPlaceAfter result (history ++ ops) (appsPlaceAfter result history place ops) rest := by
  induction ops generalizing history place with
  | nil => simp only [appsPlaceAfter, List.nil_append, List.append_nil]
  | cons op ops ih =>
    rw [List.cons_append, appsPlaceAfter, appsPlaceAfter, ih, List.append_assoc, List.singleton_append]

lemma appsPlaceAfter_quiet {ops : List Op} (h : ∀ op ∈ ops, AppsAt.ofOp op = none) :
    appsPlaceAfter result history place ops = place := by
  induction ops generalizing history with
  | nil => rfl
  | cons op ops ih =>
    rw [appsPlaceAfter, AppsAt.movedTo_of_none (h op (.head _)), ih fun o ho => h o (.tail _ ho)]

lemma appsPlace_append_quiet {s : List Op} (h : ∀ op ∈ s, AppsAt.ofOp op = none) (start : AppsAt)
    (ops : List Op) : appsPlace result start (ops ++ s) = appsPlace result start ops := by
  rw [appsPlace, appsPlaceAfter_append, appsPlaceAfter_quiet h, appsPlace]

lemma appsPlaceAfter_congr
    (hr : ∀ history (place : AppsAt) env,
      result (history ++ [.system place.target env]) = 0 ↔
        result' (history ++ [.system place.target env]) = 0) (ops : List Op) :
    appsPlaceAfter result history place ops = appsPlaceAfter result' history place ops := by
  induction ops generalizing history place with
  | nil => rfl
  | cons op ops ih =>
    rw [appsPlaceAfter, appsPlaceAfter, ih]
    congr 1
    unfold AppsAt.movedTo
    split
    · next moved hm =>
      obtain ⟨env, rfl⟩ := AppsAt.ofOp_eq_some hm
      simp only [hr]
    · rfl

end Place

section Spares

variable {k : KeyCodes} {m : Machine} {σ : Type} {ui : MenuUi σ} {start : AppsAt}
  {c c₁ c' : Console} {fuel : Nat}

lemma Quiet.refl (c : Console) : Quiet c c := ⟨[], by simp, by simp⟩

lemma Quiet.trans (h₁ : Quiet c c₁) (h₂ : Quiet c₁ c') : Quiet c c' :=
  let ⟨s₁, ho₁, hs₁⟩ := h₁
  let ⟨s₂, ho₂, hs₂⟩ := h₂
  ⟨s₁ ++ s₂, by rw [ho₂, ho₁, List.append_assoc], fun op h =>
    (List.mem_append.mp h).elim (hs₁ op) (hs₂ op)⟩

lemma Quiet.place {result : List Op → Int} (h : Quiet c c') :
    appsPlace result start c'.ops = appsPlace result start c.ops := by
  obtain ⟨s, ho, hs⟩ := h
  rw [ho, appsPlace_append_quiet hs]

lemma Quiet.spares (h : Quiet c c') : Spares m start c c' := by
  obtain ⟨s, ho, hs⟩ := h
  refine ⟨s, ho, fun pre post place env e => ?_⟩
  have := hs _ (by rw [e]; exact List.mem_append_right pre (.head post))
  rw [AppsAt.ofOp_target] at this
  cases this

lemma Spares.trans (h₁ : Spares m start c c₁) (h₂ : Spares m start c₁ c') : Spares m start c c' := by
  obtain ⟨s₁, ho₁, hs₁⟩ := h₁
  obtain ⟨s₂, ho₂, hs₂⟩ := h₂
  refine ⟨s₁ ++ s₂, by rw [ho₂, ho₁, List.append_assoc], fun pre post place env e => ?_⟩
  rcases List.append_eq_append_iff.mp e with ⟨a, rfl, e₂⟩ | ⟨b, rfl, e₂⟩
  · -- the `appsto` is one of `s₂`
    simpa only [ho₁, List.append_assoc] using hs₂ a post place env e₂
  · cases b with
    | nil =>
      simpa only [ho₁, List.append_nil] using hs₂ [] post place env e₂.symm
    | cons op b =>
      obtain ⟨rfl, rfl⟩ := List.cons_eq_cons.mp e₂
      exact hs₁ pre b place env rfl

lemma quiet_ask {op : Op} (h : AppsAt.ofOp op = none) : Quiet c (c.ask op) :=
  ⟨[op], rfl, by simpa using h⟩

lemma quiet_other {command : List UInt8} (h : command ∉ appsTargets)
    (env : List (String × String)) : Quiet c (c.ask (.system command env)) :=
  quiet_ask (AppsAt.ofOp_of_not_mem h env)

lemma quiet_say (lines : List String) : Quiet c (c.say lines) :=
  ⟨_, rfl, fun _ h => by obtain ⟨_, _, rfl⟩ := List.mem_map.mp h; rfl⟩

lemma quiet_eraseRoot (root : String) : Quiet c (c.eraseRoot root) :=
  (quiet_say _).trans (quiet_ask (by rfl))

lemma select_quiet {n : Nat} {chosen : Int} (h : select k ui n c = some (chosen, c₁)) :
    Quiet c c₁ := by
  obtain ⟨_, -, he⟩ := Option.map_eq_some'.mp h
  obtain ⟨-, rfl⟩ := Prod.mk.inj he
  exact ⟨[], by simp, by simp⟩

lemma confirm_quiet {what : String} {home : Bool} (h : confirm k what c = some (home, c₁)) :
    Quiet c c₁ := by
  obtain ⟨_, -, he⟩ := Option.map_eq_some'.mp h
  obtain ⟨-, rfl⟩ := Prod.mk.inj he
  exact quiet_say _

lemma mountAll_quiet (roots : List String) (c : Console) : Quiet c (mountAll m roots c).2 := by
  induction roots generalizing c with
  | nil => exact .refl c
  | cons root roots ih =>
    rw [mountAll]
    dsimp only [Console.mount, Console.call]
    split_ifs
    · exact (quiet_ask (by rfl)).trans (ih _)
    · exact quiet_ask (by rfl)

lemma spares_ask {op : Op}
    (h : ∀ (place : AppsAt) env, op = .system place.target env → appsPlace m.result start c.ops ≠ place) :
    Spares m start c (c.ask op) := by
  refine ⟨[op], rfl, fun pre post place env e => ?_⟩
  cases pre with
  | nil =>
    obtain ⟨rfl, -⟩ := List.cons_eq_cons.mp e
    simpa only [List.append_nil] using h place env rfl
  | cons _ pre => simp at e

lemma appsMove_spares {here what failure : String} {roots : List String} {target : List UInt8}
    (hne : ∀ place : AppsAt, target = place.target → appsPlace m.result start c.ops ≠ place)
    (h : appsMove m k here what roots failure target c = some c') : Spares m start c c' := by
  obtain ⟨⟨home, c₁⟩, hc, h⟩ := Option.bind_eq_some.mp h
  have h₁ : Quiet c c₁ := (quiet_say _).trans (confirm_quiet hc)
  dsimp only [Console.system, Console.call] at h
  generalize hx : mountAll m roots c₁ = x at h
  obtain ⟨mounted, c₂⟩ := x
  have h₂ : Quiet c c₂ := h₁.trans (by simpa only [hx] using mountAll_quiet (m := m) roots c₁)
  cases home
  · simp only [Bool.false_eq_true, if_false, Option.some.injEq] at h
    subst h
    exact (h₁.trans (quiet_say _)).spares
  rw [if_pos rfl] at h
  dsimp only at h
  rcases ite_eq_iff.mp h with ⟨-, h⟩ | ⟨-, h⟩ <;> cases h
  · refine h₂.spares.trans ((spares_ask fun place env e => ?_).trans (quiet_say _).spares)
    rw [h₂.place]
    exact hne place (Op.system.inj e).1
  · exact (h₂.trans (quiet_say _)).spares

lemma appsTo_spares {found other : List UInt8} {already atOther atData what failure : String}
    {roots : List String} {target : List UInt8} (hf : found ∉ appsTargets)
    (ho : other ∉ appsTargets)
    (ht : m.result (c.ops ++ [.system found c.env]) ≠ 0 →
      ∀ place : AppsAt, target = place.target → appsPlace m.result start c.ops ≠ place)
    (h : appsTo m k found other already atOther atData what roots failure target c = some c') :
    Spares m start c c' := by
  unfold appsTo at h
  dsimp only [Console.system, Console.call] at h
  rcases ite_eq_iff.mp h with ⟨-, h⟩ | ⟨hr, h⟩
  · cases h
    exact ((quiet_other hf _).trans (quiet_say _)).spares
  · have h₁ : Quiet c ((c.ask (.system found c.env)).ask (.system other c.env)) :=
      (quiet_other hf _).trans (quiet_other ho _)
    refine h₁.spares.trans (appsMove_spares (fun place e => ?_) h)
    rw [h₁.place]
    exact ht hr place e

lemma appsData_spares
    (ht : m.result (c.ops ++ [.system (ascii "readlink /data/app") c.env]) = 0 →
      ∀ place : AppsAt, ascii "appsto data" = place.target → appsPlace m.result start c.ops ≠ place)
    (h : appsData m k c = some c') : Spares m start c c' := by
  unfold appsData at h
  dsimp only [Console.system, Console.call] at h
  rcases ite_eq_iff.mp h with ⟨-, h⟩ | ⟨hr, h⟩
  · cases h
    exact ((quiet_other (by decide) _).trans (quiet_say _)).spares
  · have h₁ : Quiet c ((c.ask (.system (ascii "readlink /data/app") c.env)).ask
        (.system (ascii "readlink /data/app | grep cache") c.env)) :=
      (quiet_other (by decide) _).trans (quiet_other (by decide) _)
    refine h₁.spares.trans (appsMove_spares (fun place e => ?_) h)
    rw [h₁.place]
    exact ht (not_not.mp hr) place e

lemma advancedItem_spares (hm : Reports m start) {chosen : Int}
    (h : advancedItem m k chosen c = some c') : Spares m start c c' := by
  unfold advancedItem at h
  rcases ite_eq_iff.mp h with ⟨-, h⟩ | ⟨-, h⟩
  · obtain ⟨⟨home, c₁⟩, hc, h⟩ := Option.bind_eq_some.mp h
    refine (confirm_quiet hc).spares.trans ?_
    dsimp only [Console.system, Console.mount, Console.call] at h
    cases home
    · simp only [Bool.false_eq_true, if_false, Option.some.injEq] at h
      subst h
      exact (quiet_say _).spares
    rw [if_pos rfl] at h
    rcases ite_eq_iff.mp h with ⟨-, h⟩ | ⟨-, h⟩ <;> cases h
    · exact ((quiet_ask (by rfl)).trans ((quiet_say _).trans
        ((quiet_other (by decide) _).trans (quiet_say _)))).spares
    · exact (quiet_ask (by rfl)).spares
  rcases ite_eq_iff.mp h with ⟨-, h⟩ | ⟨-, h⟩
  · obtain ⟨⟨home, c₁⟩, hc, h⟩ := Option.bind_eq_some.mp h
    refine (confirm_quiet hc).spares.trans ?_
    dsimp only [Console.mount, Console.call] at h
    cases home
    · simp only [Bool.false_eq_true, if_false, Option.some.injEq] at h
      subst h
      exact (quiet_say _).spares
    rw [if_pos rfl] at h
    rcases ite_eq_iff.mp h with ⟨-, h⟩ | ⟨-, h⟩ <;> cases h
    · exact ((quiet_ask (by rfl)).trans ((quiet_say _).trans ((quiet_eraseRoot _).trans
        ((quiet_eraseRoot _).trans (quiet_say _))))).spares
    · exact (quiet_ask (by rfl)).spares
  rcases ite_eq_iff.mp h with ⟨-, h⟩ | ⟨-, h⟩
  · exact appsTo_spares (by decide) (by decide) (fun hr place e hp =>
      hr ((hm _ _).2.1.mpr (hp.trans (AppsAt.target_inj e.symm)))) h
  rcases ite_eq_iff.mp h with ⟨-, h⟩ | ⟨-, h⟩
  · exact appsTo_spares (by decide) (by decide) (fun hr place e hp =>
      hr ((hm _ _).2.2.mpr (hp.trans (AppsAt.target_inj e.symm)))) h
  rcases ite_eq_iff.mp h with ⟨-, h⟩ | ⟨-, h⟩
  · exact appsData_spares (fun hr place e hp =>
      (hm _ _).1.mp hr (hp.trans (AppsAt.target_inj e.symm))) h
  · cases h
    exact (Quiet.refl _).spares

lemma advancedLoop_spares (hm : Reports m start) (h : advancedLoop m k ui fuel c = some c') :
    Spares m start c c' := by
  induction fuel generalizing c with
  | zero => cases h
  | succ fuel ih =>
    rw [advancedLoop] at h
    obtain ⟨⟨chosen, c₁⟩, hs, h⟩ := Option.bind_eq_some.mp h
    refine ((quiet_ask (by rfl)).trans (select_quiet hs)).spares.trans ?_
    dsimp only at h
    rcases ite_eq_iff.mp h with ⟨-, h⟩ | ⟨-, h⟩
    · cases h
      exact ⟨[], by simp, by simp⟩
    obtain ⟨c₂, hi, h⟩ := Option.bind_eq_some.mp h
    exact (advancedItem_spares hm hi).trans (ih h)

theorem advancedMenu_spares_place (hm : Reports m start)
    (h : advancedMenu m k ui fuel c = some c') :
    ∃ s, c'.ops = c.ops ++ s ∧ ∀ pre post (place : AppsAt) env,
      s = pre ++ .system place.target env :: post → appsPlace m.result start (c.ops ++ pre) ≠ place :=
  advancedLoop_spares hm h

def appsMachine (start : AppsAt) : Machine :=
  ⟨fun ops => match ops.getLast? with
    | some (.system command _) =>
      if command = ascii "readlink /data/app" then
        if appsPlace (fun _ => 0) start ops.dropLast = .data then 1 else 0
      else if command = ascii "readlink /data/app | grep sd" then
        if appsPlace (fun _ => 0) start ops.dropLast = .sd then 0 else 1
      else if command = ascii "readlink /data/app | grep cache" then
        if appsPlace (fun _ => 0) start ops.dropLast = .cache then 0 else 1
      else 0
    | _ => 0,
   fun _ _ => false⟩

lemma appsPlace_appsMachine (start : AppsAt) (ops : List Op) :
    appsPlace (appsMachine start).result start ops = appsPlace (fun _ => 0) start ops := by
  refine appsPlaceAfter_congr (fun history place env => ?_) ops
  have : place.target ≠ ascii "readlink /data/app" ∧ place.target ≠ ascii "readlink /data/app | grep sd" ∧
      place.target ≠ ascii "readlink /data/app | grep cache" := by
    cases place <;> decide
  simp [appsMachine, this]

lemma reports_appsMachine (start : AppsAt) : Reports (appsMachine start) start := by
  have hsd : ascii "readlink /data/app | grep sd" ≠ ascii "readlink /data/app" := by decide
  have hcache : ascii "readlink /data/app | grep cache" ≠ ascii "readlink /data/app" ∧
      ascii "readlink /data/app | grep cache" ≠ ascii "readlink /data/app | grep sd" := by decide
  intro ops env
  simp only [appsPlace_appsMachine]
  refine ⟨?_, ?_, ?_⟩ <;> simp [appsMachine, hsd, hcache]

def appsKeys : List Int :=
  [inputKeys.down, inputKeys.down, inputKeys.center, inputKeys.home, inputKeys.down,
    inputKeys.down, inputKeys.center, inputKeys.back]

def appsOps : List Op :=
  [.finishRecovery, .system (ascii "readlink /data/app | grep sd") [],
    .system (ascii "readlink /data/app | grep cache") [],
    .print "\n- Apps are currently in\n- /data/app"] ++
  (Tools.confirmKey "move your apps\nto a partitioned SD card").map .print ++
  [.mount "DATA:", .mount "SDEXT:", .system (ascii "appsto sd") [], .print "\nApps successfully moved!",
    .finishRecovery, .system (ascii "readlink /data/app | grep sd") [],
    .print "\nApps already moved to SD", .finishRecovery]

theorem advancedMenu_spares_moves :
    Reports (appsMachine .data) .data ∧
      advancedMenu (appsMachine .data) inputKeys clampUi 3 ⟨appsKeys, false, false, [], []⟩ =
        some ⟨[], false, false, [], appsOps⟩ ∧
      ∃ s, appsOps = [] ++ s ∧ ∀ pre post (place : AppsAt) env,
        s = pre ++ .system place.target env :: post →
          appsPlace (appsMachine .data).result .data ([] ++ pre) ≠ place :=
  have h : advancedMenu (appsMachine .data) inputKeys clampUi 3 ⟨appsKeys, false, false, [], []⟩ =
      some ⟨[], false, false, [], appsOps⟩ := by decide
  ⟨reports_appsMachine .data, h, advancedMenu_spares_place (reports_appsMachine .data) h⟩

end Spares

end BootableRecovery.OptionsSafety
