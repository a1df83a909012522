import Mathlib.Data.List.GetD
import Zeos.Common.Libc
import Zeos.Common.Library
import Zeos.Base.PageFault

/-!
# The first process

The program that the kernel under `zeos/` runs (`user.c`), with `perror` (`libc.c`) and the
system calls it makes. What it prints is known for every value of the clock and of its
identifier (`Zeos.Base.User.main_prints`), and so is where it is interrupted: system calls run
with interrupts disabled, so that what a handler prints comes between the texts of two calls,
and never inside one.

`sys_write` has been verified for one call (`Zeos.Base.write_prints`). Here calls follow each
other; what has been sent before a call makes no difference to it (`Zeos.Base.sysWrite_after`).
-/

namespace Zeos.Base

open ByteMem Loop Positional

/-! ### Calls that follow each other -/

/-- The same state, with something sent and copied before. -/
def Term.after (s : List Byte) (cs : List Copy) (t : Term) : Term :=
  { t with sent := s ++ t.sent, copies := cs ++ t.copies }

section After

variable {con : Console} {s : List Byte} {cs : List Copy} {t : Term}

theorem printc_after {c : Byte} : printc con c (t.after s cs) = (printc con c t).after s cs := by
  have happ : s ++ t.sent ++ [c] = s ++ (t.sent ++ [c]) := List.append_assoc ..
  rw [printc, printc]
  split
  · simp only [Term.after, Term.store, happ]
  · dsimp only [Term.after, Term.store]
    rw [happ]
    split <;> rfl

theorem sysWriteConsole_after {buffer : Word} {size : Int} :
    sysWriteConsole con buffer size (t.after s cs) =
      ((sysWriteConsole con buffer size t).1,
        (sysWriteConsole con buffer size t).2.after s cs) := by
  refine Prod.ext rfl ?_
  simp only [sysWriteConsole]
  induction size.toNat with
  | zero => rfl
  | succ n ih =>
    rw [forLoop_succ, forLoop_succ, ih]
    exact printc_after

theorem copyFromUser_after {start dest : Word} {size : Int} :
    (copyFromUser start dest size (t.after s cs)).2 =
      (copyFromUser start dest size t).2.after s cs := by
  simp only [copyFromUser, Term.after, List.append_assoc]

/-- **What has been sent before makes no difference to the loop.** -/
theorem writeLoop_after {buffer : Word} : ∀ (n : Nat) {left written : Int} {t : Term},
    left.toNat ≤ n → writeLoop con buffer left written (t.after s cs) =
      ((writeLoop con buffer left written t).1,
        (writeLoop con buffer left written t).2.after s cs) := by
  intro n
  -- by what is left: every round takes at least one byte
  induction n with
  | zero =>
    intro left written t hn
    rw [writeLoop, writeLoop, if_neg (by omega), if_neg (by omega)]
  | succ n ih =>
    intro left written t hn
    by_cases hpos : 0 < left
    · have hchunk : ((min 256 left.toNat : Nat) : Int) = if 256 < left then 256 else left := by
        split <;> omega
      rw [writeLoop_of_pos hpos hchunk, writeLoop_of_pos hpos hchunk, copyFromUser_after,
        sysWriteConsole_after]
      exact ih (by omega)
    · rw [writeLoop, writeLoop, if_neg hpos, if_neg hpos]

end After

/-- The first address after the user pages. -/
def userEnd : Nat := 0x41C000

/-- **A call of `sys_write` after others**: the buffer is printed after what has been sent,
and the program has its memory as it was. -/
theorem sysWrite_spec {con : Console} {t : Term} {buffer : Word} {n : Nat}
    (hcur : OnScreen con t.mem) (h0 : lUserStart ≤ buffer.toNat)
    (hn : buffer.toNat + n ≤ userEnd) :
    ∃ t', sysWrite con 1 buffer (BitVec.ofNat 32 n) t = ((n : Int), t') ∧
      t'.sent = t.sent ++ block t.mem buffer n ∧ OnScreen con t'.mem ∧
      ∀ a, lUserStart ≤ a.toNat → t'.mem a = t.mem a := by
  have hstart : lUserStart = 0x400000 := rfl
  have hend : userEnd = 0x41C000 := rfl
  have hnat : (BitVec.ofNat 32 n).toNat = n := by
    rw [BitVec.toNat_ofNat]
    omega
  have hint : (BitVec.ofNat 32 n).toInt = (n : Int) := by
    rw [BitVec.toInt_eq_toNat_cond, hnat, if_pos (by omega)]
  have hacc : accessOk accessBounds .verifyRead buffer (BitVec.ofNat 32 n) = true := by
    rw [accessOk_iff (by omega), hnat]
    unfold pagLogInitData numPagData numPagCode
    omega
  have hbuf : buffer ≠ 0 := by
    rintro rfl
    exact absurd h0 (by decide)
  -- the call as it would be if it were the first one
  have hw₀ : Written con t.mem buffer 0 ⟨t.mem, [], []⟩ :=
    ⟨fun _ _ => rfl, hcur, rfl, fun _ hc => absurd hc List.not_mem_nil⟩
  obtain ⟨t', ht', hw⟩ := Written.writeLoop (n := n) h0 (by omega) n 0 _ (Nat.add_zero n) hw₀
  have hloop : writeLoop con buffer (n : Nat) (0 : Nat) t =
      ((n : Int), t'.after t.sent t.copies) := by
    have h := @writeLoop_after con t.sent t.copies buffer n n (0 : Nat) ⟨t.mem, [], []⟩ (by omega)
    rw [ht'] at h
    have ht : Term.after t.sent t.copies ⟨t.mem, [], []⟩ = t := by
      simp only [Term.after, List.append_nil]
    rwa [ht] at h
  refine ⟨t'.after t.sent t.copies, ?_, congrArg (t.sent ++ ·) hw.sent, hw.cursor, hw.user⟩
  rw [sysWrite, if_neg (by decide), if_neg hbuf, hint, if_neg (by omega), hacc]
  exact hloop

namespace User

/-! ### The program -/

/-- **A process between two system calls.** -/
structure Proc where
  /-- Memory, and the console. -/
  term : Term
  /-- `errno` -/
  errno : Word
  /-- The number of system calls so far. -/
  calls : Nat

/-- **What happens around a process**: interrupts come between its system calls, and the
clock counts. -/
structure Around (con : Console) where
  /-- What the handlers do between one system call and the next. -/
  ints : Nat → Term → Term
  /-- `zeos_ticks`, when the system call with that number is served. -/
  ticks : Nat → Word
  /-- The identifier of the process. -/
  pid : Word
  /-- Handlers leave the memory of the user alone. -/
  user : ∀ n t, OnScreen con t.mem → ∀ a, lUserStart ≤ a.toNat → (ints n t).mem a = t.mem a
  /-- They leave the cursor on the screen. -/
  cursor : ∀ n t, OnScreen con t.mem → OnScreen con (ints n t).mem
  /-- They may print. -/
  sent : ∀ n t, ∃ noise, (ints n t).sent = t.sent ++ noise
  /-- Time does not go back. -/
  ticks_mono : ∀ m n, m ≤ n → (ticks m).toInt ≤ (ticks n).toInt
  /-- It has not overflowed. -/
  ticks_nonneg : 0 ≤ (ticks 0).toInt
  /-- Identifiers are not negative. -/
  pid_nonneg : 0 ≤ pid.toInt

/-- The literals of `main` and of `perror`. -/
def literals : List String :=
  ["\n", "Starting test gettime...\n", "Current time: ", " ticks\n", "Finished some work...\n",
    "Time elapsed: ", "WRITE TEST\n", "write", "WRITE TEST ERROR\n", "PID: ", ": ",
    "Bad file number", "Permission denied", "Bad address", "Invalid argument",
    "Function not implemented", "Unknown error"]

/-- **The linked program**: the addresses of its literals, equal ones being the same, and of
`buff`. -/
structure UserImage where
  /-- The address of a literal. -/
  lit : String → Word
  /-- The address of `buff`. -/
  buff : Word
  /-- The literals are in the user pages. -/
  lit_mem : ∀ s ∈ literals, lUserStart ≤ (lit s).toNat ∧
    (lit s).toNat + (chars s).length + 1 ≤ userEnd
  /-- So is `buff`, which has 24 characters. -/
  buff_mem : lUserStart ≤ buff.toNat ∧ buff.toNat + 24 ≤ userEnd
  /-- It does not overlap the literals. -/
  lit_apart : ∀ s ∈ literals, (lit s).toNat + (chars s).length + 1 ≤ buff.toNat ∨
    buff.toNat + 24 ≤ (lit s).toNat

/-- The literals are in memory. -/
def UserImage.Loaded (img : UserImage) (m : Mem) : Prop :=
  ∀ s ∈ literals, CString m (img.lit s) (chars s)

/-- The messages of `perror`, by `errno`. -/
def errorMessage (errno : Word) : String :=
  if errno = 9 then "Bad file number"
  else if errno = 13 then "Permission denied"
  else if errno = 14 then "Bad address"
  else if errno = 22 then "Invalid argument"
  else if errno = 38 then "Function not implemented"
  else "Unknown error"

theorem printc_sent {con : Console} {c : Byte} {t : Term} :
    (printc con c t).sent = t.sent ++ [c] := by
  rw [printc]
  split
  · rfl
  · dsimp only
    split <;> rfl

/-- What `keyboard_handler` prints. -/
theorem run_printcXy_sent {con : Console} (ps : List PrintAt) (t : Term) :
    (run con (ps.map .printcXy) t).sent = t.sent ++ ps.map (·.c) := by
  induction ps generalizing t with
  | nil => exact (List.append_nil _).symm
  | cons p ps ih =>
    refine (ih _).trans ?_
    have hsent : ((Call.printcXy p).exec con t).sent = t.sent ++ [p.c] := printc_sent
    rw [hsent, List.append_assoc]
    rfl

/-- **Keys are pressed**, and `keyboard_routine` prints their characters. -/
def Around.ofKeys (con : Console) (keys : Nat → List PrintAt) (ticks : Nat → Word) (pid : Word)
    (hmono : ∀ m n, m ≤ n → (ticks m).toInt ≤ (ticks n).toInt) (hnonneg : 0 ≤ (ticks 0).toInt)
    (hpid : 0 ≤ pid.toInt) : Around con where
  ints := fun n => run con ((keys n).map .printcXy)
  ticks := ticks
  pid := pid
  user := fun n t hcur a ha => by
    have hstart : lUserStart = 0x400000 := rfl
    have hquiet := con.quiet_user ha
    refine run_offScreen ⟨hquiet.1, hquiet.2.1, Or.inr ?_⟩ hcur _
    unfold screen numColumns numRows
    omega
  cursor := fun n t hcur => ((shows_view hcur).run _).cursor
  sent := fun n t => ⟨_, run_printcXy_sent (keys n) t⟩
  ticks_mono := hmono
  ticks_nonneg := hnonneg
  pid_nonneg := hpid

section Functions

variable {con : Console} (env : Around con) (img : UserImage)

/-- A process makes a system call: its service routine has some result, and the wrapper
checks it. -/
def Proc.call (p : Proc) (service : Term → Word × Term) : Word × Proc :=
  let (r, t) := service (env.ints p.calls p.term)
  (outcome true r, { term := t, errno := errnoAfter true r p.errno, calls := p.calls + 1 })

/-- `write` -/
def write (fd : Int) (buffer size : Word) (p : Proc) : Word × Proc :=
  p.call env fun t => (BitVec.ofInt 32 (sysWrite con fd buffer size t).1,
    (sysWrite con fd buffer size t).2)

/-- `gettime` -/
def gettime (p : Proc) : Word × Proc := p.call env fun t => (env.ticks p.calls, t)

/-- `getpid` -/
def getpid (p : Proc) : Word × Proc := p.call env fun t => (env.pid, t)

/-- `write(1, s, strlen(s))` -/
def writeString (fuel : Nat) (s : Word) (p : Proc) : Option Proc :=
  (strlen fuel p.term.mem s).map fun n => (write env 1 s (BitVec.ofNat 32 n) p).2

/-- `itoa(a, buff)` -/
def itoaBuff (fuel : Nat) (a : Word) (p : Proc) : Option Proc :=
  (itoa fuel a.toInt img.buff ⟨p.term.mem, [], []⟩).map fun tr =>
    { p with term := { p.term with mem := tr.mem } }

/-- `perror` -/
def perror (fuel : Nat) (s : Word) (p : Proc) : Option Proc := do
  let msg := errorMessage p.errno
  let p ← if s ≠ 0 ∧ p.term.mem s ≠ 0 then do
      let p ← writeString env fuel s p
      some (write env 1 (img.lit ": ") 2 p).2
    else some p
  let p ← writeString env fuel (img.lit msg) p
  some (write env 1 (img.lit "\n") 1 p).2

/-- `main` (`user.c`), up to the endless loop. The loop that passes time does nothing. -/
def main (fuel : Nat) (p : Proc) : Option Proc := do
  let p := (write env 1 (img.lit "\n") 1 p).2
  let p := (write env 1 (img.lit "Starting test gettime...\n") 25 p).2
  let (i, p) := gettime env p
  let p ← itoaBuff img fuel i p
  let p := (write env 1 (img.lit "Current time: ") 14 p).2
  let p ← writeString env fuel img.buff p
  let p := (write env 1 (img.lit " ticks\n") 7 p).2
  let p := (write env 1 (img.lit "Finished some work...\n") 22 p).2
  let (j, p) := gettime env p
  let p := (write env 1 (img.lit "Time elapsed: ") 14 p).2
  let p ← itoaBuff img fuel (j - i) p
  let p ← writeString env fuel img.buff p
  let p := (write env 1 (img.lit " ticks\n") 7 p).2
  let (n, p) := write env 1 (img.lit "WRITE TEST\n") 11 p
  let p ← if n.toInt < 0 then perror env img fuel (img.lit "write") p else some p
  let (n, p) := write env 2 (img.lit "WRITE TEST ERROR\n") 18 p
  let p ← if n.toInt < 0 then perror env img fuel (img.lit "write") p else some p
  let (pid, p) := getpid env p
  let p := (write env 1 (img.lit "PID: ") 5 p).2
  let p ← itoaBuff img fuel pid p
  let p ← writeString env fuel img.buff p
  some (write env 1 (img.lit "\n") 1 p).2

end Functions

/-! ### One system call after the other -/

/-- **The process runs**: its memory is `m`, and its system calls have printed `texts`, one
text for each call. What the handlers have printed is before the text of a call. -/
structure Progress {con : Console} (env : Around con) (img : UserImage) (m : Mem)
    (texts : List (List Byte)) (p : Proc) : Prop where
  /-- Its memory. -/
  user : ∀ a, lUserStart ≤ a.toNat → p.term.mem a = m a
  /-- Its literals. -/
  loaded : img.Loaded m
  /-- The cursor is on the screen. -/
  cursor : OnScreen con p.term.mem
  /-- The number of its calls. -/
  calls : p.calls = texts.length
  /-- What has been sent. -/
  sent : ∃ noise : List (List Byte), noise.length = texts.length ∧
    p.term.sent = (List.zipWith (· ++ ·) noise texts).flatten

section Progress

variable {con : Console} {env : Around con} {img : UserImage} {m : Mem}
  {texts : List (List Byte)} {p : Proc} {fuel n : Nat} {s a : Word} {cs : List Byte} {lit : String}

/-- **A system call** that prints `out` after what has been sent. -/
theorem Progress.call (h : Progress env img m texts p) (service : Term → Word × Term) (r : Word)
    (out : List Byte)
    (hservice : ∀ t, OnScreen con t.mem → (∀ a, lUserStart ≤ a.toNat → t.mem a = m a) →
      ∃ t', service t = (r, t') ∧ t'.sent = t.sent ++ out ∧ OnScreen con t'.mem ∧
        ∀ a, lUserStart ≤ a.toNat → t'.mem a = t.mem a) :
    ∃ p', p.call env service = (outcome true r, p') ∧ p'.errno = errnoAfter true r p.errno ∧
      Progress env img m (texts ++ [out]) p' := by
  have huser : ∀ a, lUserStart ≤ a.toNat → (env.ints p.calls p.term).mem a = m a := fun a ha =>
    (env.user _ _ h.cursor a ha).trans (h.user a ha)
  obtain ⟨t', ht', hsent, hcur, hmem⟩ := hservice _ (env.cursor p.calls _ h.cursor) huser
  obtain ⟨noise, hnoise⟩ := env.sent p.calls p.term
  obtain ⟨noises, hlen, hsent₀⟩ := h.sent
  refine ⟨⟨t', errnoAfter true r p.errno, p.calls + 1⟩, ?_, rfl, ?_⟩
  · rw [Proc.call, ht']
  · refine ⟨fun a ha => (hmem a ha).trans (huser a ha), h.loaded, hcur, ?_,
      noises ++ [noise], ?_, ?_⟩
    · rw [List.length_append, h.calls]
      rfl
    · rw [List.length_append, List.length_append, hlen]
      rfl
    · rw [List.zipWith_append hlen, List.flatten_append, ← hsent₀]
      refine hsent.trans ?_
      rw [hnoise, List.append_assoc]
      simp

/-- A result that is not negative is no error. -/
theorem outcome_of_nonneg {r : Word} (errno : Word) (h : 0 ≤ r.toInt) :
    outcome true r = r ∧ errnoAfter true r errno = errno :=
  ⟨if_neg fun hr => absurd hr.2 (by omega), if_neg fun hr => absurd hr.2 (by omega)⟩

/-- **A block of the user pages is printed.** -/
theorem Progress.write (h : Progress env img m texts p) (h0 : lUserStart ≤ s.toNat)
    (hn : s.toNat + n ≤ userEnd) :
    ∃ p', write env 1 s (BitVec.ofNat 32 n) p = (BitVec.ofNat 32 n, p') ∧ p'.errno = p.errno ∧
      Progress env img m (texts ++ [block m s n]) p' := by
  have hend : userEnd = 0x41C000 := rfl
  have hstart : lUserStart = 0x400000 := rfl
  have hsize : 0 ≤ (BitVec.ofInt 32 (n : Int)).toInt := by
    rw [BitVec.ofInt_natCast, BitVec.toInt_eq_toNat_cond, BitVec.toNat_ofNat]
    split <;> omega
  obtain ⟨p', hp', herrno, hrun⟩ := h.call
    (fun t => (BitVec.ofInt 32 (sysWrite con 1 s (BitVec.ofNat 32 n) t).1,
      (sysWrite con 1 s (BitVec.ofNat 32 n) t).2))
    (BitVec.ofInt 32 (n : Int)) (block m s n) fun t hcur huser => by
    obtain ⟨t', ht', hsent, hcur', hmem⟩ := sysWrite_spec hcur h0 hn
    refine ⟨t', by rw [ht'], ?_, hcur', hmem⟩
    rw [hsent]
    refine congrArg _ (block_congr fun i hi => huser _ ?_)
    rw [BitVec.toNat_add, BitVec.toNat_ofNat]
    omega
  obtain ⟨h1, h2⟩ := outcome_of_nonneg p.errno hsize
  rw [h1, BitVec.ofInt_natCast] at hp'
  rw [h2] at herrno
  exact ⟨p', hp', herrno, hrun⟩

/-- A literal is printed, with the size that the program gives. -/
theorem Progress.literal (h : Progress env img m texts p) (lit : String) (hlit : lit ∈ literals)
    (size : Word)
    (hsize : BitVec.ofNat 32 (chars lit).length = size) :
    ∃ p', User.write env 1 (img.lit lit) size p = (size, p') ∧ p'.errno = p.errno ∧
      Progress env img m (texts ++ [chars lit]) p' := by
  obtain ⟨h0, hn⟩ := img.lit_mem lit hlit
  obtain ⟨p', hp', herrno, hrun⟩ := h.write (n := (chars lit).length) h0 (by omega)
  rw [(h.loaded lit hlit).block] at hrun
  rw [hsize] at hp'
  exact ⟨p', hp', herrno, hrun⟩

/-- **A write to another file** is refused. -/
theorem Progress.write_badFd (h : Progress env img m texts p) {fd : Int} (hfd : fd ≠ 1)
    (size : Word) : ∃ p', User.write env fd s size p = (-1, p') ∧ p'.errno = 9 ∧
      Progress env img m (texts ++ [[]]) p' := by
  have hwrite : ∀ t, sysWrite con fd s size t = (-9, t) := fun t => by
    have hfd' : checkFd fd escriptura = -9 := if_pos hfd
    rw [sysWrite, hfd']
    rfl
  obtain ⟨p', hp', herrno, hrun⟩ := h.call
    (fun t => (BitVec.ofInt 32 (sysWrite con fd s size t).1, (sysWrite con fd s size t).2))
    (BitVec.ofInt 32 (-9)) [] fun t hcur _ =>
      ⟨t, by rw [hwrite], (List.append_nil _).symm, hcur, fun _ _ => rfl⟩
  exact ⟨p', hp', herrno, hrun⟩

/-- A system call that prints nothing. -/
theorem Progress.silent (h : Progress env img m texts p) {r : Word} (hr : 0 ≤ r.toInt) :
    ∃ p', p.call env (fun t => (r, t)) = (r, p') ∧ p'.errno = p.errno ∧
      Progress env img m (texts ++ [[]]) p' := by
  obtain ⟨p', hp', herrno, hrun⟩ := h.call (fun t => (r, t)) r []
    fun t hcur _ => ⟨t, rfl, (List.append_nil _).symm, hcur, fun _ _ => rfl⟩
  obtain ⟨h1, h2⟩ := outcome_of_nonneg p.errno hr
  rw [h1] at hp'
  rw [h2] at herrno
  exact ⟨p', hp', herrno, hrun⟩

/-- The clock is read. -/
theorem Progress.gettime (h : Progress env img m texts p) (n : Nat) (hn : texts.length = n) :
    ∃ p', User.gettime env p = (env.ticks n, p') ∧ Progress env img m (texts ++ [[]]) p' := by
  have hticks : 0 ≤ (env.ticks p.calls).toInt :=
    env.ticks_nonneg.trans (env.ticks_mono 0 _ (Nat.zero_le _))
  obtain ⟨p', hp', -, hrun⟩ := h.silent hticks
  rw [← hn, ← h.calls]
  exact ⟨p', hp', hrun⟩

/-- The process asks for its identifier. -/
theorem Progress.getpid (h : Progress env img m texts p) :
    ∃ p', User.getpid env p = (env.pid, p') ∧ Progress env img m (texts ++ [[]]) p' := by
  obtain ⟨p', hp', -, hrun⟩ := h.silent env.pid_nonneg
  exact ⟨p', hp', hrun⟩

/-- **A string is measured and printed.** -/
theorem Progress.string (h : Progress env img m texts p) (fuel : Nat) (hs : CString m s cs)
    (h0 : lUserStart ≤ s.toNat) (hn : s.toNat + cs.length + 1 ≤ userEnd)
    (hfuel : cs.length < fuel) :
    ∃ p', writeString env fuel s p = some p' ∧ p'.errno = p.errno ∧
      Progress env img m (texts ++ [cs]) p' := by
  have hend : userEnd = 0x41C000 := rfl
  have hread : ∀ i ≤ cs.length, p.term.mem (s + BitVec.ofNat 32 i) = m (s + BitVec.ofNat 32 i) :=
    fun i hi => h.user _ (by
      rw [BitVec.toNat_add, BitVec.toNat_ofNat]
      omega)
  have hlen : strlen fuel p.term.mem s = some cs.length := by
    refine strlenFrom_eq (Nat.zero_le _) (fun i hi => ?_) ?_ hfuel
    · rw [hread i (Nat.le_of_lt hi)]
      exact hs.ne_zero_at hi
    · rw [hread _ (Nat.le_refl _)]
      exact hs.terminator
  obtain ⟨p', hp', herrno, hrun⟩ := h.write (n := cs.length) h0 (by omega)
  rw [hs.block] at hrun
  refine ⟨p', ?_, herrno, hrun⟩
  rw [writeString, hlen, Option.map_some, hp']

/-- The text of a number: its decimal digits. -/
def Decimal (n : Nat) (cs : List Byte) : Prop := ∃ ds, IsNumeral 10 n ds ∧ cs = ds.map digitByte

/-- The string that `itoa` leaves behind. -/
theorem cstring_of_printed {t : Traced} {b : Word} (h : Zeos.Printed m b n t) :
    CString t.mem b (string t b (Nat.log 10 n + 1)) ∧
      Decimal n (string t b (Nat.log 10 n + 1)) := by
  have hlen : (string t b (Nat.log 10 n + 1)).length = Nat.log 10 n + 1 := length_block
  refine ⟨⟨by rw [hlen]; rfl, fun c hc h0 => ?_, by rw [hlen]; exact h.terminator⟩, _,
    h.numeral, ?_⟩
  · have hdigit := (h.digit c hc).1
    rw [h0] at hdigit
    exact absurd hdigit (by decide)
  · rw [List.map_map]
    refine ((List.map_congr_left fun c hc => ?_).trans (List.map_id _)).symm
    obtain ⟨h1, h2⟩ := h.digit c hc
    apply BitVec.eq_of_toNat_eq
    change (digitByte (c.toNat - 48)).toNat = c.toNat
    rw [digitByte_toNat (by omega)]
    omega

/-- **A number is converted**, into the array `buff`. -/
theorem Progress.itoa (h : Progress env img m texts p) (ha : 0 ≤ a.toInt) (hfuel : 11 ≤ fuel) :
    ∃ p' m' cs, itoaBuff img fuel a p = some p' ∧ p'.errno = p.errno ∧ Decimal a.toNat cs ∧
      cs.length ≤ 10 ∧ CString m' img.buff cs ∧ Progress env img m' texts p' := by
  have hend : userEnd = 0x41C000 := rfl
  have hstart : lUserStart = 0x400000 := rfl
  have hnat : a.toInt.toNat = a.toNat := by
    rw [BitVec.toInt_eq_toNat_cond] at ha ⊢
    split at ha <;> omega
  obtain ⟨t, hrun, hprinted⟩ := itoa_prints ha (Int.le_sub_one_of_lt a.toInt_lt) img.buff p.term.mem
  rw [hnat] at hprinted
  obtain ⟨hstring, hdecimal⟩ := cstring_of_printed hprinted
  have hlog : Nat.log 10 a.toNat < 10 :=
    Nat.log_lt_of_lt_pow' (by decide) (by have := a.isLt; omega)
  obtain ⟨hb, hb'⟩ := img.buff_mem
  -- the eleven bytes that are written
  have hout : ∀ x : Word, x.toNat < img.buff.toNat ∨ img.buff.toNat + 24 ≤ x.toNat →
      t.mem x = p.term.mem x := fun x hx => hprinted.within.outside x fun i hi heq => by
    rw [heq, BitVec.toNat_add, BitVec.toNat_ofNat] at hx
    omega
  refine ⟨{ p with term := { p.term with mem := t.mem } }, t.mem, _, ?_, rfl, hdecimal, ?_, hstring,
    fun _ _ => rfl, fun s hs => ?_, ?_, h.calls, h.sent⟩
  · rw [itoaBuff, hrun fuel hfuel, Option.map_some]
  · exact length_block.trans_le (by omega)
  · obtain ⟨h1, h2⟩ := img.lit_mem s hs
    refine (h.loaded s hs).congr fun i hi => ?_
    have hat : (img.lit s + BitVec.ofNat 32 i).toNat = (img.lit s).toNat + i := by
      rw [BitVec.toNat_add, BitVec.toNat_ofNat]
      omega
    have happ := img.lit_apart s hs
    rw [hout _ (by omega)]
    exact h.user _ (by omega)
  · have hx := con.x_mem.2
    have hy := con.y_mem.2
    change OnScreen con t.mem
    rw [OnScreen, hout con.x (by omega), hout con.y (by omega)]
    exact h.cursor

/-- No literal is longer than 25 characters. -/
theorem length_literals : ∀ s ∈ literals, (chars s).length ≤ 25 := by
  decide +kernel

theorem errorMessage_mem (errno : Word) : errorMessage errno ∈ literals := by
  unfold errorMessage
  split_ifs <;> simp [literals]

/-- **The message of an error**, after the name that `perror` is given. -/
theorem Progress.perror (h : Progress env img m texts p) (hlit : lit ∈ literals)
    (hne : chars lit ≠ []) (hfuel : 26 ≤ fuel) :
    ∃ p', perror env img fuel (img.lit lit) p = some p' ∧ Progress env img m
      (texts ++ [chars lit] ++ [chars ": "] ++ [chars (errorMessage p.errno)] ++ [chars "\n"])
      p' := by
  have hstart : lUserStart = 0x400000 := rfl
  obtain ⟨h0, hn⟩ := img.lit_mem lit hlit
  have hmsg := errorMessage_mem p.errno
  obtain ⟨h0', hn'⟩ := img.lit_mem _ hmsg
  have hle := length_literals lit hlit
  have hle' := length_literals _ hmsg
  have hs : img.lit lit ≠ 0 ∧ p.term.mem (img.lit lit) ≠ 0 := by
    constructor
    · intro hzero
      rw [hzero] at h0
      exact absurd h0 (by decide)
    · have hfirst := (h.loaded lit hlit).ne_zero_at (List.length_pos_of_ne_nil hne)
      rw [BitVec.add_zero] at hfirst
      rwa [h.user _ h0]
  obtain ⟨p₁, e₁, -, h₁⟩ := h.string fuel (h.loaded lit hlit) h0 hn (by omega)
  obtain ⟨p₂, e₂, -, h₂⟩ := h₁.literal ": " (by simp [literals]) 2 (by decide +kernel)
  obtain ⟨p₃, e₃, -, h₃⟩ := h₂.string fuel (h.loaded _ hmsg) h0' hn' (by omega)
  obtain ⟨p₄, e₄, -, h₄⟩ := h₃.literal "\n" (by simp [literals]) 1 (by decide +kernel)
  refine ⟨p₄, ?_, h₄⟩
  rw [User.perror, if_pos hs]
  simp only [e₁, e₂, e₃, e₄, Option.bind_eq_bind, Option.bind_some]

/-- `buff` is printed, with a number in it. -/
theorem Progress.buff (h : Progress env img m texts p) (fuel : Nat) (hs : CString m img.buff cs)
    (hlen : cs.length ≤ 10) (hfuel : 11 ≤ fuel) :
    ∃ p', writeString env fuel img.buff p = some p' ∧ Progress env img m (texts ++ [cs]) p' := by
  obtain ⟨h0, hn⟩ := img.buff_mem
  obtain ⟨p', hp', -, hrun⟩ := h.string fuel hs h0 (by omega) (by omega)
  exact ⟨p', hp', hrun⟩

end Progress

/-! ### What is printed -/

/-- **The texts of the system calls of `main`**, those of the three numbers being given. -/
def output (time elapsed pid : List Byte) : List (List Byte) :=
  [chars "\n", chars "Starting test gettime...\n", [], chars "Current time: ", time,
    chars " ticks\n", chars "Finished some work...\n", [], chars "Time elapsed: ", elapsed,
    chars " ticks\n", chars "WRITE TEST\n", [], chars "write", chars ": ", chars "Bad file number",
    chars "\n", [], chars "PID: ", pid, chars "\n"]

section Main

variable {con : Console}

/-- The difference of two times. -/
theorem toNat_sub_of_le {i j : Word} (hi : 0 ≤ i.toInt) (hij : i.toInt ≤ j.toInt) :
    0 ≤ (j - i).toInt ∧ (j - i).toNat = j.toNat - i.toNat := by
  have h1 := i.isLt
  have h2 := j.isLt
  rw [BitVec.toInt_eq_toNat_cond] at hi hij
  rw [BitVec.toInt_eq_toNat_cond] at hij
  rw [BitVec.toInt_eq_toNat_cond, BitVec.toNat_sub]
  split at hi <;> split at hij <;> split <;> omega

/-- **What the first process prints**, for every clock, every identifier, and whatever the
handlers print between its system calls: the two times and the identifier are the decimal
numbers they should be, the wrong write is reported, and nothing is lost. -/
theorem main_prints (env : Around con) (img : UserImage) (t : Term) (errno : Word) {fuel : Nat}
    (hfuel : 26 ≤ fuel) (hloaded : img.Loaded t.mem) (hcur : OnScreen con t.mem)
    (hsent : t.sent = []) :
    ∃ p time elapsed pid, main env img fuel ⟨t, errno, 0⟩ = some p ∧
      Decimal (env.ticks 2).toNat time ∧
      Decimal ((env.ticks 7).toNat - (env.ticks 2).toNat) elapsed ∧ Decimal env.pid.toNat pid ∧
      ∃ noise : List (List Byte), noise.length = 21 ∧
        p.term.sent = (List.zipWith (· ++ ·) noise (output time elapsed pid)).flatten := by
  have h₀ : Progress env img t.mem [] ⟨t, errno, 0⟩ :=
    ⟨fun _ _ => rfl, hloaded, hcur, rfl, [], rfl, hsent⟩
  have hfuel' : 11 ≤ fuel := by omega
  have hticks : 0 ≤ (env.ticks 2).toInt := env.ticks_nonneg.trans (env.ticks_mono 0 2 (by decide))
  obtain ⟨helapsed, hsub⟩ := toNat_sub_of_le hticks (env.ticks_mono 2 7 (by decide))
  obtain ⟨p₁, e₁, -, h₁⟩ := h₀.literal "\n" (by simp [literals]) 1 (by decide +kernel)
  obtain ⟨p₂, e₂, -, h₂⟩ := h₁.literal "Starting test gettime...\n" (by simp [literals]) 25
    (by decide +kernel)
  -- the current time
  obtain ⟨p₃, e₃, h₃⟩ := h₂.gettime 2 rfl
  obtain ⟨p₄, m₄, time, e₄, -, htime, hlen₄, hs₄, h₄⟩ := h₃.itoa hticks hfuel'
  obtain ⟨p₅, e₅, -, h₅⟩ := h₄.literal "Current time: " (by simp [literals]) 14 (by decide +kernel)
  obtain ⟨p₆, e₆, h₆⟩ := h₅.buff fuel hs₄ hlen₄ hfuel'
  obtain ⟨p₇, e₇, -, h₇⟩ := h₆.literal " ticks\n" (by simp [literals]) 7 (by decide +kernel)
  obtain ⟨p₈, e₈, -, h₈⟩ := h₇.literal "Finished some work...\n" (by simp [literals]) 22
    (by decide +kernel)
  -- the time that has elapsed
  obtain ⟨p₉, e₉, h₉⟩ := h₈.gettime 7 rfl
  obtain ⟨q₁, f₁, -, k₁⟩ := h₉.literal "Time elapsed: " (by simp [literals]) 14 (by decide +kernel)
  obtain ⟨q₂, m₂, elapsed, f₂, -, hel, hlen₂, hs₂, k₂⟩ := k₁.itoa helapsed hfuel'
  obtain ⟨q₃, f₃, k₃⟩ := k₂.buff fuel hs₂ hlen₂ hfuel'
  obtain ⟨q₄, f₄, -, k₄⟩ := k₃.literal " ticks\n" (by simp [literals]) 7 (by decide +kernel)
  -- the two tests of `write`
  obtain ⟨q₅, f₅, -, k₅⟩ := k₄.literal "WRITE TEST\n" (by simp [literals]) 11 (by decide +kernel)
  obtain ⟨q₆, f₆, herrno, k₆⟩ := k₅.write_badFd (s := img.lit "WRITE TEST ERROR\n")
    (show (2 : Int) ≠ 1 by decide) 18
  obtain ⟨q₇, f₇, k₇⟩ := k₆.perror (show "write" ∈ literals by simp [literals])
    (by decide +kernel) hfuel
  -- the identifier
  obtain ⟨q₈, f₈, k₈⟩ := k₇.getpid
  obtain ⟨q₉, f₉, -, k₉⟩ := k₈.literal "PID: " (by simp [literals]) 5 (by decide +kernel)
  obtain ⟨r₁, mr, pid, g₁, -, hpid, hlen₁, hs₁, l₁⟩ := k₉.itoa env.pid_nonneg hfuel'
  obtain ⟨r₂, g₂, l₂⟩ := l₁.buff fuel hs₁ hlen₁ hfuel'
  obtain ⟨r₃, g₃, -, l₃⟩ := l₂.literal "\n" (by simp [literals]) 1 (by decide +kernel)
  have hmsg : errorMessage 9 = "Bad file number" := rfl
  rw [hsub] at hel
  rw [herrno, hmsg] at l₃
  simp only [List.cons_append, List.nil_append] at l₃
  refine ⟨r₃, time, elapsed, pid, ?_, htime, hel, hpid, l₃.sent⟩
  have hno : ¬(11 : Word).toInt < 0 := by decide
  have hyes : (-1 : Word).toInt < 0 := by decide
  simp only [main, e₁, e₂, e₃, e₄, e₅, e₆, e₇, e₈, e₉, f₁, f₂, f₃, f₄, f₅, f₆, f₇, f₈, f₉, g₁, g₂, g₃,
    if_neg hno, if_pos hyes, Option.bind_eq_bind, Option.bind_some]

end Main

/-- A key is pressed before the fifth system call; the clock counts from 100 to 142. -/
def sampleAround : Around sampleConsole :=
  Around.ofKeys sampleConsole
    (fun n => if n = 4 then
      [{ mx := 0, my := 0, c := 97, mx_lt := by decide, my_lt := by decide }] else [])
    (fun n => if n ≤ 2 then 100 else 142) 1
    (fun m n h => by
      split
      · split <;> decide
      · rw [if_neg (by omega)])
    (by decide) (by decide)

/-- Where a literal of the sample is: they are one after the other. -/
def sampleLit (s : String) : Word := BitVec.ofNat 32 (0x410000 + 64 * literals.idxOf s)

theorem sampleLit_toNat {s : String} (hs : s ∈ literals) :
    (sampleLit s).toNat = 0x410000 + 64 * literals.idxOf s ∧ literals.idxOf s < 17 := by
  have hlt : literals.idxOf s < 17 := List.idxOf_lt_length_of_mem hs
  rw [sampleLit, BitVec.toNat_ofNat]
  omega

/-- A program with these literals. -/
def sampleUserImage : UserImage where
  lit := sampleLit
  buff := 0x400000
  lit_mem := fun s hs => by
    have hlen := length_literals s hs
    obtain ⟨h1, h2⟩ := sampleLit_toNat hs
    unfold lUserStart userEnd
    omega
  buff_mem := by decide
  lit_apart := fun s hs => by
    obtain ⟨h1, -⟩ := sampleLit_toNat hs
    refine Or.inr ?_
    rw [h1]
    exact Nat.le_trans (by decide) (Nat.le_add_right _ _)

/-- The memory of the program. -/
def sampleUserMem : Mem := fun x =>
  (chars (literals.getD ((x.toNat - 0x410000) / 64) "")).getD ((x.toNat - 0x410000) % 64) 0

/-- A literal is in it. -/
theorem sampleUserMem_lit {s : String} (hs : s ∈ literals) {i : Nat} (hi : i ≤ 25) :
    sampleUserMem (sampleLit s + BitVec.ofNat 32 i) = (chars s).getD i 0 := by
  obtain ⟨h1, h2⟩ := sampleLit_toNat hs
  have hat : (sampleLit s + BitVec.ofNat 32 i).toNat - 0x410000 = 64 * literals.idxOf s + i := by
    rw [BitVec.toNat_add, BitVec.toNat_ofNat]
    omega
  have hget : literals.getD (literals.idxOf s) "" = s := by
    rw [List.getD_eq_getElem _ _ h2]
    exact List.getElem_idxOf h2
  have hdiv : (64 * literals.idxOf s + i) / 64 = literals.idxOf s := by omega
  have hmod : (64 * literals.idxOf s + i) % 64 = i := by omega
  rw [sampleUserMem, hat, hdiv, hmod, hget]

/-- The literals are in it. -/
theorem loaded_sample : sampleUserImage.Loaded sampleUserMem := by
  have hall : ∀ s ∈ literals, (chars s).all (fun c => c.toNat != 0) = true := by decide +kernel
  intro s hs
  have hlen := length_literals s hs
  refine ⟨List.ext_getElem length_block fun i h1 h2 => ?_, fun c hc h0 => ?_, ?_⟩
  · simp only [block, List.getElem_map, List.getElem_range]
    exact (sampleUserMem_lit hs (by omega)).trans (List.getD_eq_getElem _ _ h2)
  · have hc' := List.all_eq_true.mp (hall s hs) c hc
    rw [h0] at hc'
    exact absurd hc' (by decide)
  · exact (sampleUserMem_lit hs hlen).trans (List.getD_eq_default _ _ (Nat.le_refl _))

/-- This program prints the numbers 100, 42 and 1. -/
theorem main_prints_sample : ∃ p time elapsed pid,
    main sampleAround sampleUserImage 26 ⟨⟨sampleUserMem, [], []⟩, 0, 0⟩ = some p ∧
      Decimal 100 time ∧ Decimal 42 elapsed ∧ Decimal 1 pid ∧
      ∃ noise : List (List Byte), noise.length = 21 ∧
        p.term.sent = (List.zipWith (· ++ ·) noise (output time elapsed pid)).flatten :=
  main_prints sampleAround sampleUserImage ⟨sampleUserMem, [], []⟩ 0 (Nat.le_refl 26) loaded_sample
    (by unfold OnScreen; decide +kernel) rfl

end User

end Zeos.Base
