import Zeos.Game.Entry

/-!
# The system calls of the library of GAME

`user-utils.S`. Every function of the library leaves the actual system call to
`syscall_sysenter`, which builds the frame that the handler looks for, executes `sysenter`,
and returns to the function. A function that has arguments loads them into `EBX`, `ECX` and
`EDX`, and saves `EBX`; some check the result (`nok`), and others do not.

`Zeos.Game.UserUtils.function_call` is what the callers of these functions rely on. The service
routine of the name finds the arguments, in their order; if it returns, the function returns
to its caller with the result, or with `-1` and `errno`, and with all that is the caller's as it
was. Only `exit` has a service routine that does not return.
-/

namespace Zeos.Game.UserUtils

open ByteMem X86 Entry

/-! ### The functions -/

/-- What the functions differ in. -/
structure Stub where
  /-- The number of the system call. -/
  number : Word
  /-- Where the arguments are, and the registers they go to. -/
  args : List (Word × Reg)
  /-- Whether a negative result leads to `nok`. -/
  checks : Bool

/-- Functions with arguments save `EBX`. -/
def Stub.saved (c : Stub) : List AnyReg := if c.args = [] then [] else [.gen .ebx]

/-- The addresses in the program. -/
structure UserCode where
  /-- The address of `syscall_sysenter`. -/
  syscallSysenter : Word
  /-- The address `SYSENTER_RETURN`. -/
  sysenterReturn : Word
  /-- The address after the call of `syscall_sysenter`. -/
  afterCall : Word

section Functions

variable (hd : Entry.Handlers) (code : Word → Machine → Machine) (esp0 : Word) (l : UserCode)
  (errno : Word)

/-- A function up to the call of `syscall_sysenter`. -/
def Stub.load (c : Stub) : List Instr :=
  prologue ++ save c.saved ++ .movI c.number .eax :: c.args.map fun a => .load a.1 .ebp a.2

/-- `syscall_sysenter` up to `sysenter`. -/
def link (sysenterReturn : Word) : List Instr :=
  [.pushR .ecx, .pushR .edx, .pushI sysenterReturn, .pushR .ebp, .movR .esp .ebp]

/-- `syscall_sysenter` from `SYSENTER_RETURN` on. -/
def unlink : List Instr := [.popR .ebp, .popR .edx, .popR .edx, .popR .ecx, .ret]

/-- The machine at `sysenter`. -/
def Stub.ask (c : Stub) (m : Machine) : Machine :=
  X86.exec (link l.sysenterReturn) (step (X86.exec c.load m) (.call l.syscallSysenter l.afterCall))

/-- A function from its check on. -/
def Stub.leave (c : Stub) (m : Machine) : Machine :=
  X86.exec [.popR .ebp, .ret] (if c.checks then checkResult errno m else m)

/-- **A function**, from its first instruction to its return, if the kernel leads to
`SYSENTER_RETURN`, and `syscall_sysenter` back to its caller. -/
def Stub.run (c : Stub) (m : Machine) : Option Machine :=
  (syscall hd code esp0 (c.ask l m)).bind fun m₁ =>
    let m₂ := X86.exec unlink m₁
    if m₁.eip = l.sysenterReturn ∧ m₂.eip = l.afterCall then
      some (c.leave errno (X86.exec (restore c.saved) m₂))
    else none

end Functions

/-- `write` -/
def write : Stub := ⟨4, [(8, .ebx), (12, .ecx), (16, .edx)], true⟩

/-- `gettime` -/
def gettime : Stub := ⟨10, [], false⟩

/-- `getpid` -/
def getpid : Stub := ⟨20, [], false⟩

/-- `fork` -/
def fork : Stub := ⟨2, [], true⟩

/-- `exit` -/
def exit : Stub := ⟨1, [], false⟩

/-- `yield` -/
def yield : Stub := ⟨13, [], false⟩

/-- `get_stats` -/
def getStats : Stub := ⟨35, [(8, .ebx), (12, .ecx)], true⟩

/-- The functions of the library, but for `GetKeyboardState`, whose number is not defined. -/
inductive LibFunction
  | write | gettime | getpid | fork | exit | yield | getStats
deriving DecidableEq

namespace LibFunction

/-- What the function is made of. -/
def stub : LibFunction → Stub
  | write => UserUtils.write
  | gettime => UserUtils.gettime
  | getpid => UserUtils.getpid
  | fork => UserUtils.fork
  | exit => UserUtils.exit
  | yield => UserUtils.yield
  | getStats => UserUtils.getStats

/-- The service routine of the same name. -/
def service : LibFunction → Service
  | write => .write
  | gettime => .gettime
  | getpid => .getpid
  | fork => .fork
  | exit => .exit
  | yield => .yield
  | getStats => .getStats

/-- The number of its arguments. -/
def arity (f : LibFunction) : Nat := f.stub.args.length

end LibFunction

/-! ### The way to the kernel -/

/-- Where the arguments of a function are, and where they go. -/
def argRegs : List (Word × Reg) := [(8, .ebx), (12, .ecx), (16, .edx)]

section Ask

variable {user : Word → Prop} {cl : Caller user} {c : Stub} {l : UserCode} {m : Machine}

/-- The arguments are passed in order, from the first on. -/
structure Stub.Passes (c : Stub) (k : Nat) : Prop where
  /-- How many there are. -/
  le : k ≤ 3
  /-- Where they go. -/
  args : c.args = argRegs.take k

/-- Loading the arguments writes no memory, and the registers for arguments only. -/
theorem exec_loads {args : List (Word × Reg)} (h : ∀ a ∈ args, a.2 ∈ [Reg.ebx, .ecx, .edx])
    (m : Machine) :
    (X86.exec (args.map fun a => .load a.1 .ebp a.2) m).mem = m.mem ∧
      (X86.exec (args.map fun a => .load a.1 .ebp a.2) m).seg = m.seg ∧
      ∀ r, r ∉ [Reg.ebx, .ecx, .edx] →
        (X86.exec (args.map fun a => .load a.1 .ebp a.2) m).reg r = m.reg r := by
  induction args generalizing m with
  | nil => exact ⟨rfl, rfl, fun _ _ => rfl⟩
  | cons a args ih =>
    obtain ⟨h1, h2, h3⟩ := ih (fun b hb => h b (List.mem_cons_of_mem a hb))
      (step m (.load a.1 .ebp a.2))
    refine ⟨h1, h2, fun r hr => (h3 r hr).trans (Machine.setReg_reg_of_ne fun heq => hr ?_)⟩
    rw [heq]
    exact h a (List.mem_cons_self ..)

/-- The arguments of a function, in the registers. -/
theorem exec_argRegs {k : Nat} (hk : k ≤ 3) {b : Word} (hb : m.reg .ebp = b) :
    ∃ ws, [(X86.exec ((argRegs.take k).map fun a => .load a.1 .ebp a.2) m).reg .ebx,
      (X86.exec ((argRegs.take k).map fun a => .load a.1 .ebp a.2) m).reg .ecx,
      (X86.exec ((argRegs.take k).map fun a => .load a.1 .ebp a.2) m).reg .edx] =
      ((List.range k).map fun i => load32 m.mem (b + BitVec.ofNat 32 (4 * i + 8))) ++ ws := by
  subst hb
  have hcases : k = 0 ∨ k = 1 ∨ k = 2 ∨ k = 3 := by omega
  rcases hcases with rfl | rfl | rfl | rfl
  · exact ⟨_, rfl⟩
  · exact ⟨[m.reg .ecx, m.reg .edx], by simp [argRegs, step, Machine.setReg]⟩
  · exact ⟨[m.reg .edx], by simp [argRegs, step, Machine.setReg, List.range_succ]⟩
  · exact ⟨[], by simp [argRegs, step, Machine.setReg, List.range_succ]⟩

/-- The words that a function has on the stack when it makes its system call. -/
def Stub.frame (c : Stub) (cl : Caller user) (l : UserCode) (d x : Word) : List Word :=
  [cl.reg .esp - 4, l.sysenterReturn, d, x, l.afterCall] ++
    (c.saved.map cl.frameValue ++ [cl.reg .ebp])

/-- **At `sysenter`**: the frame is on the stack, the number is in `EAX`, and the arguments are
in the registers for them. -/
structure Stub.Asks (c : Stub) (cl : Caller user) (l : UserCode) (k : Nat) (u : Machine) :
    Prop where
  /-- The frame. -/
  pushed : ∃ d x, Pushed cl.mem (cl.reg .esp) (c.frame cl l d x) u
  /-- The fake frame pointer. -/
  ebp : u.reg .ebp = u.reg .esp
  /-- The number. -/
  eax : u.reg .eax = c.number
  /-- The arguments. -/
  args : ∃ ws, [u.reg .ebx, u.reg .ecx, u.reg .edx] = cl.args k ++ ws
  /-- The registers that the function does not save. -/
  kept : ∀ r ∈ [Reg.ebx, .esi, .edi], AnyReg.gen r ∉ c.saved → u.reg r = cl.reg r
  /-- The segments. -/
  seg : u.seg = cl.seg

theorem Stub.length_saved (c : Stub) : c.saved.length ≤ 1 := by
  rw [Stub.saved]
  split <;> simp

theorem Stub.length_frame (c : Stub) (cl : Caller user) (l : UserCode) (d x : Word) :
    (c.frame cl l d x).length = 6 + c.saved.length := by
  rw [Stub.frame]
  simp only [List.length_append, List.length_map, List.length_cons, List.length_nil]
  omega

theorem Stub.esp_notMem_saved (c : Stub) : AnyReg.gen .esp ∉ c.saved := by
  rw [Stub.saved]
  split <;> simp

/-- **A function up to the call of `syscall_sysenter`**: its frame, its number, and its
arguments. -/
theorem load_spec {k : Nat} (hc : c.Passes k) (cl : Caller user) :
    Pushed cl.mem (cl.reg .esp) (c.saved.map cl.frameValue ++ [cl.reg .ebp])
        (X86.exec c.load cl.toMachine) ∧
      (X86.exec c.load cl.toMachine).reg .ebp = cl.reg .esp - 4 ∧
      (X86.exec c.load cl.toMachine).reg .eax = c.number ∧
      (∃ ws, [(X86.exec c.load cl.toMachine).reg .ebx, (X86.exec c.load cl.toMachine).reg .ecx,
        (X86.exec c.load cl.toMachine).reg .edx] = cl.args k ++ ws) ∧
      (∀ r ∈ [Reg.ebx, .esi, .edi], AnyReg.gen r ∉ c.saved →
        (X86.exec c.load cl.toMachine).reg r = cl.reg r) ∧
      (X86.exec c.load cl.toMachine).seg = cl.seg := by
  have hsaved := c.length_saved
  have hk := hc.le
  have hargs : ∀ a ∈ c.args, a.2 ∈ [Reg.ebx, .ecx, .edx] := by
    intro a ha
    rw [hc.args] at ha
    have := List.mem_of_mem_take ha
    simp only [argRegs, List.mem_cons, List.not_mem_nil, or_false] at this
    rcases this with rfl | rfl | rfl <;> simp
  obtain ⟨hp, hebp, hreg, hseg⟩ := pushed_prologue_save cl c.saved c.esp_notMem_saved (by omega)
  have hload : X86.exec c.load cl.toMachine = X86.exec (c.args.map fun a => .load a.1 .ebp a.2)
      (step (X86.exec (prologue ++ save c.saved) cl.toMachine) (.movI c.number .eax)) := by
    rw [Stub.load, exec_append, exec_cons]
  rw [hload]
  set m := X86.exec (prologue ++ save c.saved) cl.toMachine
  have hne : ∀ r, r ≠ .eax → (step m (.movI c.number .eax)).reg r = m.reg r :=
    fun r hr => Machine.setReg_reg_of_ne hr
  obtain ⟨hmem, hseg₁, hreg₁⟩ := exec_loads hargs (step m (.movI c.number .eax))
  have hvals := exec_argRegs hk ((hne .ebp (by decide)).trans hebp)
  rw [← hc.args] at hvals
  refine ⟨hp.congr ((hreg₁ .esp (by decide)).trans (hne .esp (by decide))) hmem,
    ((hreg₁ .ebp (by decide)).trans (hne .ebp (by decide))).trans hebp,
    (hreg₁ .eax (by decide)).trans Machine.setReg_reg_self, ?_, fun r hr hns => ?_,
    hseg₁.trans hseg⟩
  · obtain ⟨ws, hws⟩ := hvals
    refine ⟨ws, hws.trans (congrArg (· ++ ws) (List.map_congr_left fun i hi => ?_))⟩
    have hi' := List.mem_range.mp hi
    exact Caller.load_arg hp (by
      simp only [List.length_append, List.length_map, List.length_cons, List.length_nil]
      omega) (by omega)
  · simp only [List.mem_cons, List.not_mem_nil, or_false] at hr
    rcases hr with rfl | rfl | rfl
    · -- a function that does not save `EBX` has no arguments
      have hnone : c.args = [] := by
        by_contra h
        exact hns (by simp [Stub.saved, h])
      rw [hnone]
      exact (hne .ebx (by decide)).trans (hreg .ebx (by decide) (by decide))
    · exact ((hreg₁ .esi (by decide)).trans (hne .esi (by decide))).trans
        (hreg .esi (by decide) (by decide))
    · exact ((hreg₁ .edi (by decide)).trans (hne .edi (by decide))).trans
        (hreg .edi (by decide) (by decide))

/-- **`syscall_sysenter` up to `sysenter`**: five words more, and `EBP` points to them. -/
theorem call_link_spec {mem : Mem} {a : Word} {ws : List Word} (hp : Pushed mem a ws m)
    (hlen : ws.length ≤ 3) (t ra ret : Word) :
    Pushed mem a ([m.reg .ebp, ret, m.reg .edx, m.reg .ecx, ra] ++ ws)
        (X86.exec (link ret) (step m (.call t ra))) ∧
      (X86.exec (link ret) (step m (.call t ra))).reg .ebp =
        (X86.exec (link ret) (step m (.call t ra))).reg .esp ∧
      (∀ r, r ≠ .ebp → r ≠ .esp → (X86.exec (link ret) (step m (.call t ra))).reg r = m.reg r) ∧
      (X86.exec (link ret) (step m (.call t ra))).seg = m.seg := by
  have hp₁ := hp.foldl_push [ra, m.reg .ecx, m.reg .edx, ret, m.reg .ebp] (by
    simp only [List.length_cons, List.length_nil]
    omega)
  have heq : X86.exec (link ret) (step m (.call t ra)) =
      { [ra, m.reg .ecx, m.reg .edx, ret, m.reg .ebp].foldl Machine.push m with
        eip := t }.setReg .ebp (m.reg .esp - 4 - 4 - 4 - 4 - 4) := by
    simp [link, step, Machine.push, Machine.setReg]
  rw [heq]
  refine ⟨hp₁.congr (Machine.setReg_reg_of_ne (by decide)) rfl, ?_, fun r h1 h2 => ?_, ?_⟩
  · rw [Machine.setReg_reg_self, Machine.setReg_reg_of_ne (by decide)]
    simp [Machine.push_esp]
  · rw [Machine.setReg_reg_of_ne h1]
    exact foldl_push_reg h2 [ra, m.reg .ecx, m.reg .edx, ret, m.reg .ebp] m
  · exact ((UpToStack.refl m).foldl_push [ra, m.reg .ecx, m.reg .edx, ret, m.reg .ebp]).seg

/-- **Every function gets to `sysenter`** with what the handler and its service routine need. -/
theorem asks_ask {k : Nat} (hc : c.Passes k) (cl : Caller user) (l : UserCode) :
    c.Asks cl l k (c.ask l cl.toMachine) := by
  have hsaved := c.length_saved
  obtain ⟨hp, hebp, heax, hargs, hkept, hseg⟩ := load_spec hc cl
  rw [Stub.ask]
  set m := X86.exec c.load cl.toMachine
  obtain ⟨hp₁, hebp₁, hreg, hseg₁⟩ := call_link_spec hp (by
    simp only [List.length_append, List.length_map, List.length_cons, List.length_nil]
    omega) l.syscallSysenter l.afterCall l.sysenterReturn
  refine ⟨⟨m.reg .edx, m.reg .ecx, ?_⟩, hebp₁, (hreg .eax (by decide) (by decide)).trans heax,
    ?_, fun r hr hns => ?_, hseg₁.trans hseg⟩
  · rw [hebp] at hp₁
    exact hp₁
  · rw [hreg .ebx (by decide) (by decide), hreg .ecx (by decide) (by decide),
      hreg .edx (by decide) (by decide)]
    exact hargs
  · have hne : ∀ r ∈ [Reg.ebx, .esi, .edi], r ≠ .ebp ∧ r ≠ .esp := by decide
    obtain ⟨h1, h2⟩ := hne r hr
    exact (hreg r h1 h2).trans (hkept r hr hns)

end Ask

/-! ### The way back -/

section Back

variable {hd : Entry.Handlers} {code : Word → Machine → Machine} {esp0 r : Word}
  {user : Word → Prop} {cl : Caller user} {c : Stub} {l : UserCode} {m u : Machine} {k : Nat}

/-- **`syscall_sysenter` from `SYSENTER_RETURN` on**: the five words are taken off. -/
theorem exec_unlink {b ret d x ra : Word} {ws : List Word}
    (h : Words m.mem (m.reg .esp) ([b, ret, d, x, ra] ++ ws)) :
    (X86.exec unlink m).eip = ra ∧ (X86.exec unlink m).reg .esp = m.reg .esp + 20 ∧
      (X86.exec unlink m).reg .ebp = b ∧
      (∀ r ∈ [Reg.eax, .ebx, .esi, .edi], (X86.exec unlink m).reg r = m.reg r) ∧
      (X86.exec unlink m).seg = m.seg ∧ (X86.exec unlink m).mem = m.mem := by
  obtain ⟨h1, h2, h3, h4, h5, -⟩ := h
  have h20 : m.reg .esp + 4 + 4 + 4 + 4 + 4 = m.reg .esp + 20 := by bv_omega
  refine ⟨?_, ?_, ?_, fun r hr => ?_, rfl, rfl⟩
  · rw [← h5]
    simp [unlink, step, Machine.pop, Machine.setReg]
  · rw [← h20]
    simp [unlink, step, Machine.pop, Machine.setReg]
  · rw [← h1]
    simp [unlink, step, Machine.pop, Machine.setReg]
  · simp only [List.mem_cons, List.not_mem_nil, or_false] at hr
    rcases hr with rfl | rfl | rfl | rfl <;> simp [unlink, step, Machine.pop, Machine.setReg]

/-- The function from its check on, its registers being restored. -/
theorem returned_leave (hb : Back cl false r m) (hesp : m.reg .esp = cl.reg .esp - 4)
    (hlink : load32 m.mem (cl.reg .esp - 4) = cl.reg .ebp)
    (hsaved : ∀ r ∈ [Reg.ebx, .esi, .edi], m.reg r = cl.reg r) :
    Returned cl c.checks r (c.leave cl.errno m) := by
  rw [Stub.leave]
  cases c.checks with
  | false => exact hb.leave hesp hlink hsaved
  | true =>
    obtain ⟨-, -, hreg, -, hmem⟩ := checkResult_spec cl.errno m
    refine hb.check.leave ((hreg .esp (by decide)).trans hesp) ?_ fun r hr => ?_
    · rw [← hlink]
      exact load32_congr fun x hx => hmem x (cl.stack x (by bv_omega)).2
    · refine (hreg r ?_).trans (hsaved r hr)
      rintro rfl
      exact absurd hr (by decide)

/-- **A function has got its answer**: it returns to its caller. -/
theorem returned_answered (ha : c.Asks cl l k u) (hans : Answered .sysenter user u r m) :
    (X86.exec unlink m).eip = l.afterCall ∧
      Returned cl c.checks r
        (c.leave cl.errno (X86.exec (restore c.saved) (X86.exec unlink m))) := by
  obtain ⟨d, x, hp⟩ := ha.pushed
  have hlen := c.length_frame cl l d x
  have hsaved := c.length_saved
  have hb : Back cl false r m := Back.answered hans hp ha.seg (by omega)
  have hw := Caller.words_answered hans hp (by omega)
  have hesp : m.reg .esp = cl.reg .esp - BitVec.ofNat 32 (4 * (c.frame cl l d x).length) := by
    rw [hans.esp, Gate.stack, ha.ebp, hp.esp]
  rw [← hesp] at hw
  obtain ⟨heip, hesp₁, -, hreg, hseg, hmem⟩ := exec_unlink hw
  refine ⟨heip, ?_⟩
  set m₁ := X86.exec unlink m
  -- the registers of the function are on top of the stack
  have hw₁ : Words m₁.mem (m₁.reg .esp) (c.saved.map cl.frameValue ++ [cl.reg .ebp]) := by
    rw [hmem, hesp₁]
    exact (words_append.mp hw).2
  have hr := exec_restore c.esp_notMem_saved hw₁
  set m₂ := X86.exec (restore c.saved) m₁
  have hkept : ∀ r ∈ [Reg.eax, .ebx, .esi, .edi], m₂.reg r =
      if AnyReg.gen r ∈ c.saved then cl.frameValue (.gen r) else m.reg r := by
    intro r hmem
    have hne : ∀ r ∈ [Reg.eax, .ebx, .esi, .edi], AnyReg.gen r ≠ .gen .esp := by decide
    refine (hr.value (.gen r) (hne r hmem)).trans ?_
    split
    · rfl
    · exact hreg r hmem
  have hesp₂ : m₂.reg .esp = cl.reg .esp - 4 := by
    rw [hr.esp, hesp₁, hesp, hlen]
    bv_omega
  refine returned_leave (hb.congr ?_ ?_ (hr.mem.trans hmem)) hesp₂ ?_ fun r hmem => ?_
  · have heax : AnyReg.gen .eax ∉ c.saved := by
      rw [Stub.saved]
      split <;> simp
    rw [hkept .eax (by simp), if_neg heax]
  · refine (funext fun t => ?_ : m₂.seg = m₁.seg).trans hseg
    have hsel : AnyReg.sel t ∉ c.saved := by
      rw [Stub.saved]
      split <;> simp
    have := hr.value (.sel t) (by simp)
    rwa [if_neg hsel] at this
  · have h := (words_append.mp hw₁).2.1
    rw [List.length_map, ← hr.mem, ← hr.esp, hesp₂] at h
    exact h
  · have hcons : r ∈ [Reg.eax, .ebx, .esi, .edi] := List.mem_cons_of_mem _ hmem
    rw [hkept r hcons]
    split
    · -- `EBX` comes from the stack
      have hne : ∀ r ∈ [Reg.ebx, .esi, .edi], AnyReg.gen r ≠ .gen .ebp := by decide
      rw [Caller.frameValue, if_neg (hne r hmem)]
      rfl
    · next hns =>
      have hcs : ∀ r ∈ [Reg.ebx, .esi, .edi], r ∈ calleeSaved := by decide
      exact (hans.saved r (hcs r hmem)).trans (ha.kept r hmem hns)

end Back

/-! ### The functions -/

section Library

variable {hd : Entry.Handlers} {code : Word → Machine → Machine} {esp0 : Word}
  {user : Word → Prop}

theorem LibFunction.passes (f : LibFunction) : f.stub.Passes f.arity := by
  cases f <;> exact ⟨by decide, rfl⟩

theorem LibFunction.number (f : LibFunction) :
    ∃ n : Nat, f.stub.number.toInt = n ∧ sysCallTable[n]? = some f.service := by
  cases f with
  | write => exact ⟨4, by decide, rfl⟩
  | gettime => exact ⟨10, by decide, rfl⟩
  | getpid => exact ⟨20, by decide, rfl⟩
  | fork => exact ⟨2, by decide, rfl⟩
  | exit => exact ⟨1, by decide, rfl⟩
  | yield => exact ⟨13, by decide, rfl⟩
  | getStats => exact ⟨35, by decide, rfl⟩

/-- **The service routine is called** for the caller of a function. -/
theorem LibFunction.invoked (f : LibFunction) (cl : Caller user) (l : UserCode)
    (hoff : ∀ x, user x → 68 ≤ (x - (esp0 - 68)).toNat) :
    Invoked cl (hd.service f.service) f.arity
      (Entry.invoked hd esp0 (f.stub.ask l cl.toMachine) f.service) := by
  have ha := asks_ask f.passes cl l
  obtain ⟨d, x, hp⟩ := ha.pushed
  obtain ⟨ws, hws⟩ := ha.args
  have hlen := f.stub.length_frame cl l d x
  have hsaved := f.stub.length_saved
  set u := f.stub.ask l cl.toMachine
  have hinv := pushed_invoked hd esp0 u f.service
  refine ⟨rfl, ⟨ws ++ (context hd esp0 u).drop 3, ?_⟩, fun y hy hout => ?_⟩
  · -- the arguments are the first registers of the context
    have hargs : context hd esp0 u = cl.args f.arity ++ (ws ++ (context hd esp0 u).drop 3) := by
      rw [← List.append_assoc, ← hws]
      rfl
    rw [← hargs]
    exact hinv.words.2
  · refine (hinv.below y ?_).trans (hp.below y (by bv_omega))
    have := hoff y hy
    rw [List.length_cons, length_context]
    exact this

/-- **A call of a function of the library.** The service routine of its name is called with the
arguments; if it returns, the caller gets the result, or `-1` and `errno` if the function
checks it, and everything else that is its own as it was. -/
theorem function_call (f : LibFunction) (cl : Caller user) (l : UserCode)
    (hoff : ∀ x, user x → 68 ≤ (x - (esp0 - 68)).toNat) :
    Invoked cl (hd.service f.service) f.arity
        (Entry.invoked hd esp0 (f.stub.ask l cl.toMachine) f.service) ∧
      (Returns 16 user (code (hd.service f.service)) →
        ∃ m, f.stub.run hd code esp0 l cl.errno cl.toMachine = some m ∧
          Returned cl f.stub.checks ((code (hd.service f.service)
            (Entry.invoked hd esp0 (f.stub.ask l cl.toMachine) f.service)).reg .eax) m) := by
  refine ⟨f.invoked cl l hoff, fun hcode => ?_⟩
  have ha := asks_ask f.passes cl l
  obtain ⟨n, hn, hs⟩ := f.number
  obtain ⟨d, x, hp⟩ := ha.pushed
  have hlen := f.stub.length_frame cl l d x
  have hsaved := f.stub.length_saved
  set u := f.stub.ask l cl.toMachine
  let p : UserProgram := { u with
    cs := by rw [ha.seg]; exact cl.cs
    ss := by rw [ha.seg]; exact cl.ss }
  have hlink : ∀ y, (y - (p.reg .ebp + 4)).toNat < 4 → user y := by
    intro y hy
    have hesp : p.reg .ebp = _ := ha.ebp.trans hp.esp
    rw [hesp] at hy
    exact (cl.stack y (by bv_omega)).1
  obtain ⟨m, hm, hans⟩ := answered p (hn ▸ congrArg BitVec.toInt ha.eax) hs hcode hoff hlink
  obtain ⟨heip, hret⟩ := returned_answered ha hans
  -- the handler looks for the address above the frame pointer
  have hnext : m.eip = l.sysenterReturn := by
    rw [hans.eip, Gate.next]
    change load32 u.mem (u.reg .ebp + 4) = _
    rw [ha.ebp]
    exact hp.words.2.1
  refine ⟨_, ?_, hret⟩
  change (syscall hd code esp0 p.toMachine).bind _ = _
  rw [hm]
  exact if_pos ⟨hnext, heip⟩

end Library

/-- Possible addresses of the handler, and of what it calls. -/
def stubHandlers : Entry.Handlers where
  systemCallHandler := 0
  syscallHandlerSysenter := 0x11100
  service := fun s => if s = .write then 0x12000 else 0x13000
  pastTable := 0
  afterCall := fun _ => 0x11140
  fin := fun _ => 0x11150

/-- Possible addresses in a program. -/
def sampleUserCode : UserCode where
  syscallSysenter := 0x114000
  sysenterReturn := 0x11400a
  afterCall := 0x114040

/-- A call of `write`. -/
theorem function_call_write :
    Invoked libraryCaller (stubHandlers.service .write) 3
        (Entry.invoked stubHandlers 0x20000 (write.ask sampleUserCode libraryCaller.toMachine)
          .write) ∧
      ∃ m, write.run stubHandlers (fun _ => sampleRoutine) 0x20000 sampleUserCode
          libraryCaller.errno libraryCaller.toMachine = some m ∧
        Returned libraryCaller true ((sampleRoutine (Entry.invoked stubHandlers 0x20000
          (write.ask sampleUserCode libraryCaller.toMachine) .write)).reg .eax) m := by
  obtain ⟨hinv, hret⟩ := @function_call stubHandlers (fun _ => sampleRoutine) 0x20000 _ .write
    libraryCaller sampleUserCode fun x hx => by
      obtain ⟨h1, h2⟩ := hx
      bv_omega
  exact ⟨hinv, hret (returns_sampleRoutine _ _)⟩

end Zeos.Game.UserUtils
