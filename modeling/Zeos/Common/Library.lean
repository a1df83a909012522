import Zeos.Common.Interrupt

/-!
# Functions of the library that make a system call

What the wrappers of the kernels have in common. A function of the library is called like
any function in C, with its return address and its arguments on the stack; it puts the
arguments into registers, makes the system call, and turns a negative result into `-1` and
`errno` (`Zeos.checkResult`). The wrappers are in assembler, and so is what they meet in the
kernel; between the two are the registers and the stack only.

A kernel answers a system call (`Zeos.Answered`) if the program goes on where it has to, with
the result in `EAX`, and finds its registers and its memory as they were. From there the
wrapper has to get back to its caller (`Zeos.Returned`). What the caller has passed must have
reached the service routine in the meantime (`Zeos.Invoked`).

The kernels with the handlers of `Zeos.Common.Entry` answer every system call that their table
has a routine for (`Zeos.KeepsProgram.answered`), as long as the service routines keep to the memory that is
not the program's.
-/

namespace Zeos

open ByteMem X86

/-! ### Callers -/

/-- **A program that has just called a function of the library**: the return address is at
`ESP`, and the arguments are above it. The stack of the program, with the eight words that
the function needs below `ESP`, and the variable `errno` are in the memory `user`, which no
service routine writes; they do not overlap. -/
structure Caller (user : Word → Prop) extends UserProgram where
  /-- The address of `errno`. -/
  errno : Word
  /-- The stack. -/
  stack : ∀ x, (x - (reg .esp - 32)).toNat < 36 → user x ∧ 4 ≤ (x - errno).toNat
  /-- The variable. -/
  own : ∀ x, (x - errno).toNat < 4 → user x

section Callers

variable {user : Word → Prop} (cl : Caller user)

/-- The first `n` arguments. -/
def Caller.args (n : Nat) : List Word :=
  (List.range n).map fun i => load32 cl.mem (cl.reg .esp + 4 + BitVec.ofNat 32 (4 * i))

/-- Memory is as the caller has left it, but for the words below its stack. -/
def Caller.Intact (mem : Mem) : Prop :=
  ∀ x, user x → 32 ≤ (x - (cl.reg .esp - 32)).toNat → mem x = cl.mem x

/-- **The service routine has been called** for the caller: it is at its first instruction. -/
structure Invoked (service : Word) (n : Nat) (e : Machine) : Prop where
  /-- The routine that is called. -/
  eip : e.eip = service
  /-- Above its return address are the arguments, as the caller has passed them. -/
  args : ∃ ws, Words e.mem (e.reg .esp + 4) (cl.args n ++ ws)
  /-- It finds what the caller has in memory. -/
  mem : cl.Intact e.mem

/-- The result of a function whose service routine has returned `r`. -/
def outcome (checks : Bool) (r : Word) : Word := if checks ∧ r.toInt < 0 then -1 else r

/-- What is in `errno` afterwards. -/
def errnoAfter (checks : Bool) (r errno : Word) : Word :=
  if checks ∧ r.toInt < 0 then -r else errno

/-- **The function has returned** to its caller, its service routine having returned `r`. -/
structure Returned (checks : Bool) (r : Word) (m : Machine) : Prop where
  /-- The caller goes on after the call. -/
  eip : m.eip = load32 cl.mem (cl.reg .esp)
  /-- The return address has been taken off the stack, and nothing else. -/
  esp : m.reg .esp = cl.reg .esp + 4
  /-- `EBX`, `ESI`, `EDI` and `EBP` are as they were. -/
  saved : ∀ r ∈ calleeSaved, m.reg r = cl.reg r
  /-- The segments are as they were. -/
  seg : m.seg = cl.seg
  /-- The result. -/
  eax : m.reg .eax = outcome checks r
  /-- The number of the error, if there is one. -/
  errno : load32 m.mem cl.errno = errnoAfter checks r (load32 cl.mem cl.errno)
  /-- The rest of the memory is as it was. -/
  mem : ∀ x, user x → 32 ≤ (x - (cl.reg .esp - 32)).toNat → 4 ≤ (x - cl.errno).toNat →
    m.mem x = cl.mem x

end Callers

/-! ### Answers -/

/-- Where the program goes on after a system call. -/
def Gate.next (u : Machine) : Gate → Word
  | .int80 => u.eip
  | .sysenter => load32 u.mem (u.reg .ebp + 4)

/-- Where its stack is then. -/
def Gate.stack (u : Machine) : Gate → Word
  | .int80 => u.reg .esp
  | .sysenter => u.reg .ebp

/-- **The kernel has answered** the system call of the program `u`, with the result `r`. -/
structure Answered (g : Gate) (user : Word → Prop) (u : Machine) (r : Word) (m : Machine) :
    Prop where
  /-- Where the program goes on. -/
  eip : m.eip = g.next u
  /-- Where its stack is. -/
  esp : m.reg .esp = g.stack u
  /-- The result. -/
  eax : m.reg .eax = r
  /-- The registers that the gate preserves. -/
  saved : ∀ r ∈ calleeSaved, m.reg r = u.reg r
  /-- The segments. -/
  seg : m.seg = u.seg
  /-- The memory of the program. -/
  mem : ∀ x, user x → m.mem x = u.mem x

/-! ### The kernels answer -/

/-- **The memory of programs**: the service routines do not write it, and the stack of the
kernel is not in it. -/
structure KeepsProgram {S : Type} (hd : Handlers S) (code : Code hd) (esp0 : Gate → Word)
    (user : Word → Prop) : Prop where
  /-- The words that a handler pushes are elsewhere. -/
  offStack : ∀ g x, user x → 68 ≤ (x - (esp0 g - 68)).toNat
  /-- The service routines write elsewhere. -/
  kept : ∀ s m x, user x → (code.run (hd.service s) m).mem x = m.mem x

/-- The kernel from the instruction that makes a system call to the one after it, if the number
is that of the entry `n` of its table. -/
def answer {S : Type} (hd : Handlers S) (code : Code hd) (table : List S) (g : Gate) (esp0 : Word)
    (n : Nat) (u : Machine) : Option Machine :=
  g.leave hd (code.serve (some n) (hd.call table g (some n) (exec g.head (g.entered hd esp0 u))))

/-- The instruction that makes the system call. The wrapper goes on at the instruction `next`
after it, if that is where the kernel leads. -/
def trap (kernel : Machine → Option Machine) (next : Word) (m : Machine) : Option Machine :=
  (kernel { m with eip := next }).bind fun m' => if m'.eip = next then some m' else none

section Kernel

variable {S : Type} {hd : Handlers S} {code : Code hd} {esp0 : Gate → Word} {table : List S}
  {user : Word → Prop} {g : Gate} {n : Nat} {s : S}

/-- The handler reads what the program has stored, if it is not below its stack. -/
theorem returnAddress_eq {u : Machine} {top : Word}
    (h : ∀ x, (x - (u.reg .ebp + 4)).toNat < 4 → 16 ≤ (x - (top - 16)).toNat) :
    load32 (exec sysenterFrame (Gate.sysenter.entered hd top u)).mem (u.reg .ebp + 4) =
      load32 u.mem (u.reg .ebp + 4) := by
  obtain ⟨hp, -⟩ := pushed_sysenterFrame hd top u
  exact load32_congr fun x hx => hp.below x (h x hx)

/-- What the service routine is called with. -/
theorem KeepsProgram.call (h : KeepsProgram hd code esp0 user) (u : Machine) (hs : table[n]? = some s) :
    let e := hd.call table g (some n) (exec g.head (g.entered hd (esp0 g) u))
    e.eip = hd.service s ∧ Words e.mem (e.reg .esp + 4) (arguments u) ∧ e.reg .esp = esp0 g - 68 ∧
      ∀ x, user x → e.mem x = u.mem x := by
  obtain ⟨hp, heip⟩ := call_some (pushed_head g hd (esp0 g) u).1 hs
  have hlen : 4 * (hd.afterCall g :: g.context hd (esp0 g) u (u.reg .eax)).length = 68 := by
    simp [Gate.context, swContext, HwContext.words]
  refine ⟨heip, words_arguments hp, ?_, fun x hx => hp.below x ?_⟩
  · rw [hp.esp, hlen]
    rfl
  · rw [hlen]
    exact h.offStack g x hx

/-- **The kernel answers** every system call whose number is in the table. -/
theorem KeepsProgram.answered (h : KeepsProgram hd code esp0 user) (u : UserProgram) (hs : table[n]? = some s)
    (hlink : g = .sysenter → ∀ x, (x - (u.reg .ebp + 4)).toNat < 4 → user x) :
    let e := hd.call table g (some n) (exec g.head (g.entered hd (esp0 g) u.toMachine))
    ∃ m, answer hd code table g (esp0 g) n u.toMachine = some m ∧
      Answered g user u.toMachine ((code.run (hd.service s) e).reg .eax) m := by
  intro e
  obtain ⟨heip, -, hesp, hmem⟩ := h.call (g := g) u.toMachine hs
  have hlt : ∀ k, some n = some k → k < table.length := by
    rintro k hk
    rw [← Option.some.inj hk]
    exact (List.getElem?_eq_some_iff.mp hs).1
  obtain ⟨m, hm, hb, -⟩ := leave_serve code hlt (pushed_head g hd (esp0 g) u.toMachine).1
  have hserved : code.serve (some n) e = code.run (hd.service s) e := by
    rw [Code.serve, heip]
  rw [hserved] at hm hb
  refine ⟨m, ?_, ?_, ?_, ?_, hb.reg_preserved, hb.seg_preserved, fun x hx => ?_⟩
  · rw [answer, hserved]
    exact hm
  · cases g with
    | int80 => exact hb.eip
    | sysenter =>
      refine hb.eip.trans (returnAddress_eq fun x hx => ?_)
      have := h.offStack .sysenter x (hlink rfl x hx)
      bv_omega
  · rw [hb.reg]
    cases g <;> rfl
  · rw [hb.reg]
    rfl
  · -- on the way out the handler writes the result into the context
    have htail : m = exec g.tail (code.run (hd.service s) e) := by
      rw [Gate.leave] at hm
      split at hm
      · exact (Option.some.inj hm).symm
      · exact absurd hm (by simp)
    have hoff := h.offStack g x hx
    rw [htail, exec_tail_mem, (code.service s).esp, hesp, store32_of_le (by bv_omega),
      h.kept s e x hx, hmem x hx]

end Kernel

/-! ### Wrappers -/

/-- The comparison of the result with zero, and what follows up to the end of the error
branch. -/
def checkResult (errno : Word) (m : Machine) : Machine :=
  if (m.reg .eax).toInt < 0 then exec [.neg .eax, .storeA .eax errno, .movI (-1) .eax] m else m

/-- The first two instructions of every wrapper. -/
def prologue : List Instr := [.pushR .ebp, .movR .esp .ebp]

/-- **A wrapper starts** by making its frame. -/
theorem pushed_prologue {user : Word → Prop} (cl : Caller user) :
    Pushed cl.mem (cl.reg .esp) [cl.reg .ebp] (exec prologue cl.toMachine) ∧
      (exec prologue cl.toMachine).reg .ebp = cl.reg .esp - 4 ∧
      (∀ r, r ≠ .ebp → r ≠ .esp → (exec prologue cl.toMachine).reg r = cl.reg r) ∧
      (exec prologue cl.toMachine).seg = cl.seg := by
  have h0 : Pushed cl.mem (cl.reg .esp) [] cl.toMachine := Pushed.nil rfl rfl
  have heq : exec prologue cl.toMachine =
      (cl.toMachine.push (cl.reg .ebp)).setReg .ebp (cl.reg .esp - 4) := by
    simp [prologue, step]
  rw [heq]
  refine ⟨(h0.push (cl.reg .ebp) (by simp)).congr (Machine.setReg_reg_of_ne (by decide)) rfl,
    Machine.setReg_reg_self, fun r h1 h2 => ?_, rfl⟩
  exact (Machine.setReg_reg_of_ne h1).trans (Machine.push_reg_of_ne h2)

/-- What a wrapper finds in the registers, once it has its frame. -/
def Caller.frameValue {user : Word → Prop} (cl : Caller user) (t : AnyReg) : Word :=
  if t = .gen .ebp then cl.reg .esp - 4 else t.value cl.toMachine

/-- **A wrapper saves registers** below its frame pointer. -/
theorem pushed_prologue_save {user : Word → Prop} (cl : Caller user) (ss : List AnyReg)
    (hss : AnyReg.gen .esp ∉ ss) (hlen : ss.length ≤ 7) :
    Pushed cl.mem (cl.reg .esp) (ss.map cl.frameValue ++ [cl.reg .ebp])
        (exec (prologue ++ save ss) cl.toMachine) ∧
      (exec (prologue ++ save ss) cl.toMachine).reg .ebp = cl.reg .esp - 4 ∧
      (∀ r, r ≠ .ebp → r ≠ .esp → (exec (prologue ++ save ss) cl.toMachine).reg r = cl.reg r) ∧
      (exec (prologue ++ save ss) cl.toMachine).seg = cl.seg := by
  obtain ⟨hp, hebp, hreg, hseg⟩ := pushed_prologue cl
  rw [exec_append]
  set m := exec prologue cl.toMachine
  have hvalue : ss.map (AnyReg.value m) = ss.map cl.frameValue := by
    refine List.map_congr_left fun t ht => ?_
    rw [Caller.frameValue]
    split
    · next heq =>
      rw [heq]
      exact hebp
    · next hne =>
      cases t with
      | gen r => exact hreg r (fun h => hne (by rw [h])) fun h => hss (by rwa [h] at ht)
      | sel s => exact congrFun hseg s
  obtain ⟨hp₁, hu⟩ := pushed_save hss hp (by
    simp only [List.length_cons, List.length_nil]
    omega)
  rw [hvalue] at hp₁
  exact ⟨hp₁, (hu.reg .ebp (by decide)).trans hebp,
    fun r h1 h2 => (hu.reg r h2).trans (hreg r h1 h2), hu.seg.trans hseg⟩

/-- The arguments are above the frame of the wrapper. -/
theorem Caller.load_arg {user : Word → Prop} {cl : Caller user} {ws : List Word} {m : Machine}
    (h : Pushed cl.mem (cl.reg .esp) ws m) (hlen : ws.length ≤ 8) {i : Nat} (hi : i < 8) :
    load32 m.mem (cl.reg .esp - 4 + BitVec.ofNat 32 (4 * i + 8)) =
      load32 cl.mem (cl.reg .esp + 4 + BitVec.ofNat 32 (4 * i)) := by
  have heq : cl.reg .esp - 4 + BitVec.ofNat 32 (4 * i + 8) =
      cl.reg .esp + 4 + BitVec.ofNat 32 (4 * i) := by bv_omega
  rw [heq]
  exact load32_congr fun x hx => h.below x (by bv_omega)

/-! ### The way to the kernel -/

/-- **At the instruction that makes the system call** of a wrapper: the words `ws` are in its
frame, the number is in `EAX`, and the `k` arguments are in the first registers. -/
structure Asks {user : Word → Prop} (cl : Caller user) (ws : List Word) (k : Nat) (number : Word)
    (u : Machine) : Prop where
  /-- The frame. -/
  pushed : Pushed cl.mem (cl.reg .esp) ws u
  /-- The frame is where the caller has room for it. -/
  length : ws.length ≤ 8
  /-- The number. -/
  eax : u.reg .eax = number
  /-- The arguments. -/
  args : ∃ vs, arguments u = cl.args k ++ vs
  /-- The segments. -/
  seg : u.seg = cl.seg

section Ask

variable {S : Type} {hd : Handlers S} {code : Code hd} {esp0 : Gate → Word} {table : List S}
  {user : Word → Prop} {cl : Caller user} {g : Gate} {n k : Nat} {s : S}

/-- The registers of the arguments are none of those that a wrapper needs. -/
theorem argReg_ne {i : Nat} (h : i < 3) :
    [Reg.edx, .ecx, .ebx].getD i .eax ≠ .eax ∧ [Reg.edx, .ecx, .ebx].getD i .eax ≠ .ebp ∧
      [Reg.edx, .ecx, .ebx].getD i .eax ≠ .esp := by
  have hcases : i = 0 ∨ i = 1 ∨ i = 2 := by omega
  rcases hcases with rfl | rfl | rfl <;> decide

/-- The arguments, in the registers for them. -/
theorem exists_arguments {u : Machine} {k : Nat} (hk : k ≤ 3)
    (h : ∀ i < k, u.reg ([Reg.edx, .ecx, .ebx].getD i .eax) =
      load32 cl.mem (cl.reg .esp + 4 + BitVec.ofNat 32 (4 * i))) :
    ∃ vs, arguments u = cl.args k ++ vs := by
  refine ⟨(arguments u).drop k, ?_⟩
  have hcases : k = 0 ∨ k = 1 ∨ k = 2 ∨ k = 3 := by omega
  rcases hcases with rfl | rfl | rfl | rfl
  · rfl
  · have h0 := h 0 (by decide)
    exact congrArg (· :: _) h0
  · have h0 : u.reg .edx = _ := h 0 (by decide)
    have h1 : u.reg .ecx = _ := h 1 (by decide)
    rw [arguments, h0, h1]
    rfl
  · have h0 : u.reg .edx = _ := h 0 (by decide)
    have h1 : u.reg .ecx = _ := h 1 (by decide)
    have h2 : u.reg .ebx = _ := h 2 (by decide)
    rw [arguments, h0, h1, h2]
    rfl

/-- **The kernel answers a wrapper**, having called the service routine for its caller. -/
theorem Asks.trap {ws : List Word} {number : Word} {u : Machine}
    {kernel : Machine → Option Machine} (h : KeepsProgram hd code esp0 user)
    (ha : Asks cl ws k number u) (next : Word) (hs : table[n]? = some s)
    (hkernel : ∀ p : Machine, p.reg .eax = number →
      kernel p = answer hd code table g (esp0 g) n p)
    (hlink : g = .sysenter → u.reg .ebp = cl.reg .esp - BitVec.ofNat 32 (4 * ws.length) ∧
      8 ≤ 4 * ws.length ∧ load32 u.mem (u.reg .ebp + 4) = next) :
    ∃ e m, Zeos.trap kernel next u = some m ∧ Invoked cl (hd.service s) k e ∧
      Answered g user { u with eip := next } ((code.run (hd.service s) e).reg .eax) m := by
  have hws := ha.length
  let p : UserProgram := { u with
    eip := next
    cs := by
      rw [ha.seg]
      exact cl.cs
    ss := by
      rw [ha.seg]
      exact cl.ss }
  have hlink' : g = .sysenter → ∀ x, (x - (p.reg .ebp + 4)).toNat < 4 → user x := by
    intro hg x hx
    obtain ⟨hebp, hle, -⟩ := hlink hg
    have hebp' : p.reg .ebp = cl.reg .esp - BitVec.ofNat 32 (4 * ws.length) := hebp
    rw [hebp'] at hx
    exact (cl.stack x (by bv_omega)).1
  obtain ⟨m, hm, hans⟩ := h.answered p hs hlink'
  obtain ⟨heip, hargs, -, hmem⟩ := h.call (g := g) p.toMachine hs
  refine ⟨hd.call table g (some n) (exec g.head (g.entered hd (esp0 g) p.toMachine)), m, ?_,
    ⟨heip, ?_, fun x hx hout => ?_⟩, hans⟩
  · have hnext : m.eip = next := by
      rw [hans.eip]
      cases g with
      | int80 => rfl
      | sysenter => exact (hlink rfl).2.2
    change (kernel p.toMachine).bind _ = _
    rw [hkernel p.toMachine ha.eax, hm]
    exact if_pos hnext
  · obtain ⟨vs, hvs⟩ := ha.args
    have : arguments p.toMachine = cl.args k ++ vs := hvs
    exact ⟨vs, this ▸ hargs⟩
  · exact (hmem x hx).trans (ha.pushed.below x (by bv_omega))

end Ask

/-! ### The way back to the caller -/

section Back

variable {user : Word → Prop} {cl : Caller user} {g : Gate} {checks : Bool} {u m : Machine}
  {r : Word} {ws : List Word}

/-- The stack of the wrapper is the program's. -/
theorem Caller.words_answered (ha : Answered g user u r m)
    (hp : Pushed cl.mem (cl.reg .esp) ws u) (hlen : ws.length ≤ 8) :
    Words m.mem (cl.reg .esp - BitVec.ofNat 32 (4 * ws.length)) ws := by
  have h := hp.words
  rw [hp.esp] at h
  exact h.congr (by omega) fun x hx => ha.mem x (cl.stack x (by bv_omega)).1

/-- **What is left to do for a wrapper** when it has come back from the kernel: to restore
registers, and to check the result. -/
structure Back (cl : Caller user) (checks : Bool) (r : Word) (m : Machine) : Prop where
  /-- The result. -/
  eax : m.reg .eax = outcome checks r
  /-- The variable `errno`. -/
  errno : load32 m.mem cl.errno = errnoAfter checks r (load32 cl.mem cl.errno)
  /-- The segments. -/
  seg : m.seg = cl.seg
  /-- The rest of the memory. -/
  mem : ∀ x, user x → 32 ≤ (x - (cl.reg .esp - 32)).toNat → 4 ≤ (x - cl.errno).toNat →
    m.mem x = cl.mem x

/-- The kernel has answered, and nothing has been checked yet. -/
theorem Back.answered (ha : Answered g user u r m) (hp : Pushed cl.mem (cl.reg .esp) ws u)
    (hseg : u.seg = cl.seg) (hlen : ws.length ≤ 8) : Back cl false r m where
  eax := ha.eax
  errno := by
    refine load32_congr fun x hx => ?_
    rw [ha.mem x (cl.own x hx)]
    refine hp.below x ?_
    by_contra hlt
    have := (cl.stack x (by bv_omega)).2
    omega
  seg := ha.seg.trans hseg
  mem := fun x hx h1 _ => (ha.mem x hx).trans (hp.below x (by bv_omega))

/-- Registers have been restored. -/
theorem Back.congr {m' : Machine} (h : Back cl checks r m) (heax : m'.reg .eax = m.reg .eax)
    (hseg : m'.seg = m.seg) (hmem : m'.mem = m.mem) : Back cl checks r m' where
  eax := heax.trans h.eax
  errno := by
    rw [hmem]
    exact h.errno
  seg := hseg.trans h.seg
  mem := by
    rw [hmem]
    exact h.mem

/-- **The check of the result** writes `EAX` and `errno`. -/
theorem checkResult_spec (errno : Word) (m : Machine) :
    (checkResult errno m).reg .eax = outcome true (m.reg .eax) ∧
      load32 (checkResult errno m).mem errno =
        errnoAfter true (m.reg .eax) (load32 m.mem errno) ∧
      (∀ r, r ≠ .eax → (checkResult errno m).reg r = m.reg r) ∧
      (checkResult errno m).seg = m.seg ∧
      ∀ x, 4 ≤ (x - errno).toNat → (checkResult errno m).mem x = m.mem x := by
  by_cases h : (m.reg .eax).toInt < 0
  · simp only [checkResult, outcome, errnoAfter, h, and_self, if_true, exec_cons,
      exec_nil, step]
    refine ⟨by simp, by simp, fun r hr => ?_, rfl, fun x hx => store32_of_le hx⟩
    rw [Machine.setReg_reg_of_ne hr]
    exact Machine.setReg_reg_of_ne hr
  · simp [checkResult, outcome, errnoAfter, h]

/-- The result has been checked. -/
theorem Back.check (h : Back cl false r m) : Back cl true r (checkResult cl.errno m) := by
  obtain ⟨heax, herr, -, hseg, hmem⟩ := checkResult_spec cl.errno m
  have hr : m.reg .eax = r := h.eax
  have he : load32 m.mem cl.errno = load32 cl.mem cl.errno := h.errno
  refine ⟨by rw [heax, hr], by rw [herr, hr, he], hseg.trans h.seg, fun x hx h1 h2 => ?_⟩
  exact (hmem x h2).trans (h.mem x hx h1 h2)

/-- The check leaves the stack of the wrapper alone. -/
theorem Caller.words_check (hlen : ws.length ≤ 8)
    (h : Words m.mem (cl.reg .esp - BitVec.ofNat 32 (4 * ws.length)) ws) :
    Words (checkResult cl.errno m).mem (cl.reg .esp - BitVec.ofNat 32 (4 * ws.length)) ws := by
  obtain ⟨-, -, -, -, hmem⟩ := checkResult_spec cl.errno m
  exact h.congr (by omega) fun x hx => hmem x (cl.stack x (by bv_omega)).2

/-- The return address is where the caller has put it. -/
theorem Back.returnAddress (h : Back cl checks r m) :
    load32 m.mem (cl.reg .esp) = load32 cl.mem (cl.reg .esp) :=
  load32_congr fun x hx =>
    h.mem x (cl.stack x (by bv_omega)).1 (by bv_omega) (cl.stack x (by bv_omega)).2

/-- **`ret`**, with everything restored. -/
theorem Back.ret (h : Back cl checks r m) (hesp : m.reg .esp = cl.reg .esp)
    (hsaved : ∀ r ∈ calleeSaved, m.reg r = cl.reg r) :
    Returned cl checks r (step m .ret) where
  eip := by
    change load32 m.mem (m.reg .esp) = _
    rw [hesp, h.returnAddress]
  esp := by
    rw [← hesp]
    simp [step, Machine.pop]
  saved := fun r hr => by
    refine Eq.trans (Machine.setReg_reg_of_ne ?_) (hsaved r hr)
    rintro rfl
    exact absurd hr (by decide)
  seg := h.seg
  eax := by
    rw [← h.eax]
    simp [step, Machine.pop, Machine.setReg_reg_of_ne]
  errno := h.errno
  mem := h.mem

/-- **`popl %ebp` and `ret`**, with the frame pointer of the caller on top of the stack. -/
theorem Back.leave (h : Back cl checks r m) (hesp : m.reg .esp = cl.reg .esp - 4)
    (hebp : load32 m.mem (cl.reg .esp - 4) = cl.reg .ebp)
    (hsaved : ∀ r ∈ [Reg.ebx, .esi, .edi], m.reg r = cl.reg r) :
    Returned cl checks r (exec [.popR .ebp, .ret] m) := by
  have hne : ∀ r, r ≠ .ebp → r ≠ .esp → (step m (.popR .ebp)).reg r = m.reg r :=
    fun r h1 h2 => (Machine.setReg_reg_of_ne h1).trans (Machine.setReg_reg_of_ne h2)
  have h4 : cl.reg .esp - 4 + 4 = cl.reg .esp := BitVec.sub_add_cancel _ _
  refine (h.congr (hne .eax (by decide) (by decide)) rfl rfl).ret ?_ fun r hr => ?_
  · rw [← h4, ← hesp]
    exact (Machine.setReg_reg_of_ne (by decide)).trans Machine.setReg_reg_self
  · simp only [calleeSaved, List.mem_cons, List.not_mem_nil, or_false] at hr
    rcases hr with rfl | rfl | rfl | rfl
    · exact (hne .ebx (by decide) (by decide)).trans (hsaved .ebx (by decide))
    · exact (hne .esi (by decide) (by decide)).trans (hsaved .esi (by decide))
    · exact (hne .edi (by decide) (by decide)).trans (hsaved .edi (by decide))
    · rw [← hebp, ← hesp]
      exact Machine.setReg_reg_self

end Back

/-! ### A caller -/

/-- The pages of a program. -/
def samplePages (x : Word) : Prop := 0x100000 ≤ x.toNat ∧ x.toNat < 0x11c000

/-- The stack of the program below is in its pages, and apart from `errno`. -/
theorem samplePages_stack {x : Word} (hx : (x - (0x11bf00 - 32)).toNat < 36) :
    samplePages x ∧ 4 ≤ (x - 0x110000).toNat :=
  ⟨by constructor <;> bv_omega, by bv_omega⟩

/-- So is `errno`. -/
theorem samplePages_errno {x : Word} (hx : (x - 0x110000).toNat < 4) : samplePages x := by
  constructor <;> bv_omega

/-- A program that has called a function of the library. -/
def libraryCaller : Caller samplePages where
  reg := fun r => if r = .esp then 0x11bf00 else 7
  seg := Function.update (fun _ => userDS) .cs userCS
  eip := 0x114100
  eflags := 0x202
  mem := fun _ => 0
  cs := Function.update_self ..
  ss := Function.update_of_ne (by decide) ..
  errno := 0x110000
  stack := fun _ hx => samplePages_stack hx
  own := fun _ hx => samplePages_errno hx

end Zeos
