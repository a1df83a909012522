import Zeos.Game.Access
import Zeos.Game.KeyEvents

/-!
# Polling the keyboard

A process that calls `sys_pollEvent` gets a copy of `keyboard_buffer`, a vector with an
entry for each key that is meant to say which keys are held down. The keyboard interrupt,
however, stores its events in `k_buffer` and nowhere else: no statement of the kernel
writes the vector. Whatever the keyboard does, a process gets what the variable was
initialised with, all zeros (`Zeos.Game.polledByte_eq`). That is the state of the keyboard
exactly when no key is held down (`Zeos.Game.polled_state`).
-/

namespace Zeos.Game

open ByteMem Paging RoundRobin X86

variable {k k₀ : Kernel} {img : Image} {h : List (Kernel × Op)} {st : Word} {key : Nat}

/-! ### The state of the keys -/

/-- The key events of a run, whether they have been stored or not. -/
def keyEvents (h : List (Kernel × Op)) : List Event :=
  h.filterMap fun x =>
    match x.2 with
    | .keyboard port => some (keyEvent port)
    | _ => none

/-- The most recent event of a key. -/
def lastEvent (h : List (Kernel × Op)) (key : Nat) : Option Event :=
  (keyEvents h).reverse.find? fun e => e.scancode.toNat = key

/-- **The key is held down**: its most recent event is a press. -/
def lastPressed (h : List (Kernel × Op)) (key : Nat) : Bool :=
  (lastEvent h key).any Event.pressed

/-! ### What a process polls -/

/-- The outcome of `sys_pollEvent`. -/
def poll (k : Kernel) (st : Word) : Int × Kernel := (k.enter .systemCallHandler).sysPollEvent st

/-- **`sys_pollEvent` succeeds**: it returns zero, and no access has faulted. -/
structure Polled (k : Kernel) (st : Word) : Prop where
  /-- It returns zero. -/
  result : (poll k st).1 = 0
  /-- No access has faulted. -/
  fault : (poll k st).2.mm.mmu.fault = false

/-- The entry of a key in the vector that the caller finds in its memory afterwards. -/
def polledByte (k : Kernel) (st : Word) (key : Nat) : Byte :=
  let loc := userLocation (poll k st).2 (st.toNat + key)
  (poll k st).2.mm.mmu.mem loc.1 loc.2

/-- A call that succeeds copies the vector. -/
theorem poll_of_result (h : (poll k st).1 = 0) :
    accessOk accessBounds .verifyWrite st (BitVec.ofNat 32 128) = true ∧
      poll k st = (0, (k.enter .systemCallHandler).copyToUser
        (k.enter .systemCallHandler).keyboard.keyboardBuffer st 128) := by
  have hsize : (128 : Word) = BitVec.ofNat 32 128 := rfl
  rw [poll, Kernel.sysPollEvent, hsize] at h ⊢
  cases hacc : accessOk accessBounds .verifyWrite st (BitVec.ofNat 32 128) with
  | true => exact ⟨rfl, by simp⟩
  | false =>
    rw [hacc, if_pos (by simp)] at h
    exact absurd h (show -EFAULT ≠ 0 by decide)

/-- **The block of a call that succeeds lies in the user pages**: the page behind them,
which `access_ok` lets pass, is not mapped. -/
theorem Polled.block {a : Sched Task} (hp : Polled k st)
    (hf : Frames (k.enter .systemCallHandler) a) :
    userLayout.pagLogInitCode * pageBytes ≤ st.toNat ∧
      st.toNat + 128 ≤ (userLayout.pagLogInitData + numPagData) * pageBytes := by
  obtain ⟨hacc, heq⟩ := poll_of_result hp.result
  obtain ⟨hge, hlt⟩ := (accessOk_iff (by decide)).mp hacc
  have hfault := hp.fault
  rw [heq] at hfault
  change Mmu.fault (Kernel.copyToUser _ _ st 128).mm.mmu = false at hfault
  rw [copyToUser_mmu hf] at hfault
  have hmapped := copyData_out_no_fault _ _ 128 hf.fresh hfault 127 (by omega)
  refine ⟨hge, ?_⟩
  by_contra hbeyond
  rw [pagLogInitData_eq] at hlt hbeyond
  unfold numPagData pageBytes at *
  have haddr : (st + BitVec.ofNat 32 127).toNat / 4096 = 284 := by bv_omega
  have hwindow := hf.owned.window a.running 0 (by decide)
  rw [haddr] at hmapped
  change (k.enter .systemCallHandler).mm.pagusrTable a.running 284 = Entry.zero at hwindow
  rw [hwindow] at hmapped
  exact absurd hmapped (by decide)

/-- **A process finds `keyboard_buffer` in its memory.** -/
theorem polledByte_eq (hr : Reachable img k) (hc : k.current ≠ k.idleTask)
    (hp : Polled k st) (hkey : key < 128) :
    polledByte k st key = k.keyboard.keyboardBuffer key := by
  obtain ⟨a, ha, hf, hne⟩ := reachable_enter hr hc .systemCallHandler
  obtain ⟨h1, h2⟩ := hp.block hf
  have hcopy := @copyToUser_user _ _ (k.enter .systemCallHandler).keyboard.keyboardBuffer st 128
    ha hf hne h1 h2
  have hact : ((k.enter .systemCallHandler).copyToUser
      (k.enter .systemCallHandler).keyboard.keyboardBuffer st 128).mm.activeTable = a.running := by
    change (k.enter .systemCallHandler).mm.activeTable = a.running
    exact activeTable_eq hf
  rw [polledByte, (poll_of_result hp.result).2, userLocation, hact]
  exact hcopy.written key hkey

/-- **No operation writes `keyboard_buffer`.** -/
theorem keyboardBuffer_path (hp : Transition.Path (Step img) (k₀.boot img) h k) :
    k.keyboard.keyboardBuffer = k₀.keyboard.keyboardBuffer := by
  refine hp.invariant (P := fun _ k => k.keyboard.keyboardBuffer = k₀.keyboard.keyboardBuffer)
    ?_ ?_
  · rw [boot_eq]
    rfl
  · rintro h s op t - hs ⟨-, rfl⟩
    rw [exec_keyboard, ← hs]
    cases op with
    | clock c =>
      rw [keyboardAfter, Keyboard.consume]
      split
      · dsimp only
        split
        · split <;> rfl
        · rfl
      · rfl
    | keyboard port =>
      rw [keyboardAfter, Keyboard.keyboardRoutine]
      dsimp only
      split <;> rfl
    | _ => rfl

/-- **What a process polls is the state of the keyboard exactly when no key is held
down.** -/
theorem polled_state (hl : Loaded k₀) (hzero : ∀ key < 128, k₀.keyboard.keyboardBuffer key = 0)
    (hp : Transition.Path (Step img) (k₀.boot img) h k) (hc : k.current ≠ k.idleTask)
    (hok : Polled k st) :
    (∀ key < 128, polledByte k st key = if lastPressed h key then 1 else 0) ↔
      ∀ key < 128, lastPressed h key = false := by
  have hbyte : ∀ key < 128, polledByte k st key = 0 := fun key hkey => by
    rw [polledByte_eq ⟨k₀, hl, h, hp⟩ hc hok hkey, keyboardBuffer_path hp, hzero key hkey]
  refine forall_congr' fun key => imp_congr_right fun hkey => ?_
  rw [hbyte key hkey]
  cases lastPressed h key <;> simp

/-! ### A key is pressed -/

/-- After boot nothing has faulted. -/
theorem boot_fault (hl : Loaded k₀) : (k₀.boot img).mm.mmu.fault = false := by
  have henough : numPagCode + numPagData ≤ (freeSlots (bootMm img k₀).physMem).length := by
    rw [freeSlots_bootMm, length_slots]
    decide
  rw [boot_mm, setUserPages_grant _ _ _ henough]
  exact hl.fault

/-- A process with a block in its data pages can poll the keyboard. -/
theorem polled_of_data (hr : Reachable img k) (hc : k.current ≠ k.idleTask)
    (hno : k.mm.mmu.fault = false) (hst : DataBlock st 128) : Polled k st := by
  obtain ⟨a, ha, hf, hne⟩ := reachable_enter hr hc .systemCallHandler
  have hacc := accessOk_data hst.1 hst.2
  have heq : poll k st = (0, (k.enter .systemCallHandler).copyToUser
      (k.enter .systemCallHandler).keyboard.keyboardBuffer st 128) := by
    have hsize : (128 : Word) = BitVec.ofNat 32 128 := rfl
    rw [poll, Kernel.sysPollEvent, hsize, hacc]
    rfl
  constructor
  · rw [heq]
  · rw [heq]
    exact (copyToUser_data ha hf hne hst.1 hst.2).fault.trans hno

/-- The run in which a key is pressed. -/
theorem path_key (port : Byte) :
    Transition.Path (Step img) (k₀.boot img) [(k₀.boot img, .keyboard port)]
      (exec img (k₀.boot img) (.keyboard port)) := Transition.Path.nil.snoc ⟨trivial, rfl⟩

/-- The process still runs after the interrupt, and can poll the keyboard. -/
theorem polled_key (hl : Loaded k₀) (port : Byte) (hst : DataBlock st 128) :
    (exec img (k₀.boot img) (.keyboard port)).current ≠
        (exec img (k₀.boot img) (.keyboard port)).idleTask ∧
      Polled (exec img (k₀.boot img) (.keyboard port)) st := by
  have hq : Quiet (k₀.boot img) (exec img (k₀.boot img) (.keyboard port)) :=
    quiet_keyboardHandler port
  have hc : (exec img (k₀.boot img) (.keyboard port)).current ≠
      (exec img (k₀.boot img) (.keyboard port)).idleTask := by
    rw [hq.current, hq.idleTask, boot_current, boot_idleTask]
    decide
  refine ⟨hc, polled_of_data ⟨k₀, hl, _, path_key port⟩ hc ?_ hst⟩
  rw [hq.mm]
  exact boot_fault hl

/-- A key is released, and the vector is right. -/
theorem polled_state_release :
    let k := exec sampleImage (powerOn.boot sampleImage) (.keyboard 0x9E)
    (∀ key < 128, polledByte k 0x108000 key =
        if lastPressed [(powerOn.boot sampleImage, .keyboard 0x9E)] key then 1 else 0) ↔
      ∀ key < 128, lastPressed [(powerOn.boot sampleImage, .keyboard 0x9E)] key = false := by
  intro k
  obtain ⟨hc, hok⟩ := polled_key loaded_powerOn 0x9E
    (show DataBlock 0x108000 128 by decide)
  exact polled_state loaded_powerOn (fun _ _ => rfl) (path_key 0x9E) hc hok

/-- **A key is pressed, and the vector does not say so.** -/
theorem polled_state_press :
    let k := exec sampleImage (powerOn.boot sampleImage) (.keyboard 0x1E)
    Polled k 0x108000 ∧ lastPressed [(powerOn.boot sampleImage, .keyboard 0x1E)] 0x1E = true ∧
      polledByte k 0x108000 0x1E = 0 := by
  intro k
  obtain ⟨hc, hok⟩ := polled_key loaded_powerOn 0x1E
    (show DataBlock 0x108000 128 by decide)
  refine ⟨hok, by decide, ?_⟩
  rw [polledByte_eq ⟨powerOn, loaded_powerOn, _, path_key 0x1E⟩ hc hok (by decide),
    keyboardBuffer_path (path_key 0x1E)]
  rfl

end Zeos.Game
