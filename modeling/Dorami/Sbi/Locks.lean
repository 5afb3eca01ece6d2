import Dorami.Lib.Fifo
import Dorami.Riscv.Pmp

/-!
# Spin locks (`riscv_locks.c`)

A ticket lock in one word: `owner` is the ticket being served, `next` the one to be drawn. The
functions are modelled instruction by instruction where they touch the word, and any number of harts
interleave their instructions. An `lr.w` reserves the word; any store to the word, by whichever
hart, ends all reservations, and an `sc.w` may fail without a reason. The fences and the `.aq`/`.rl`
bits are what lets the instructions on the word be taken in one order.

Between `spin_lock` and `spin_unlock` a hart carries out the steps of its section on the data the
lock is there for.
-/

namespace Dorami.Sbi

open Riscv Lib

/-! ## The word -/

/-- `spinlock_t` as a word in memory. -/
abbrev Spinlock := BitVec 32

namespace Spinlock

def owner (l : Spinlock) : BitVec 16 := l.extractLsb' 0 16

def next (l : Spinlock) : BitVec 16 := l.extractLsb' 16 16

/-- The halfword store to `owner`. -/
def setOwner (l : Spinlock) (v : BitVec 16) : Spinlock := l.next ++ v

/-- What `lr.w`, `lw` and `amoadd.w` put into a register. -/
def loaded (l : Spinlock) : Word := l.signExtend 64

end Spinlock

def TICKET_SHIFT : Nat := 16

/-- `inc` of `spin_lock` and `spin_trylock`. -/
def ticketInc : Word := 1 <<< TICKET_SHIFT

/-- `mask` of `spin_lock`. -/
def lockMask : Word := 0xffff

/-- `mask` of `spin_trylock`. -/
def trylockMask : Word := 0xffff <<< TICKET_SHIFT

def spinLockUnlocked (l : Spinlock) : Bool := l.owner == l.next

def spinLockCheck (l : Spinlock) : Bool := !spinLockUnlocked l

/-! ## The harts -/

/-- The next instruction of a hart that touches the word, with the registers that are live there. -/
inductive LockPc (δ : Type*) where
  /-- Not in any of the functions, and without the lock. -/
  | idle
  /-- `amoadd.w` of `spin_lock`. -/
  | amoadd (steps : List (δ → δ))
  /-- Label 1 of `spin_lock`. -/
  | compare (l0 tmp1 : Word) (steps : List (δ → δ))
  /-- `lw` of `spin_lock`. -/
  | reload (tmp1 : Word) (steps : List (δ → δ))
  /-- `lr.w` of `spin_trylock`. -/
  | lr (steps : List (δ → δ))
  /-- `sc.w` of `spin_trylock`. -/
  | sc (l0 : Word) (steps : List (δ → δ))
  /-- With the lock, and these steps of the section still to be done. -/
  | inside (steps : List (δ → δ))
  /-- The store of `spin_unlock`. -/
  | unlock (owner : BitVec 16)

/-- A lock, the data it guards, and the harts. `taken` and `entered` record, in order, the
harts that have drawn a ticket and those that have got the lock, with their sections; no
instruction reads them. -/
structure Locking (H δ : Type*) where
  lock : Spinlock
  data : δ
  pc : H → LockPc δ
  reserved : H → Bool
  taken : List H
  entered : List (H × List (δ → δ))

/-- A hart calls one of the functions, or carries out its next instruction. -/
inductive LockInput (H δ : Type*) where
  | spinLock (h : H) (steps : List (δ → δ))
  | spinTrylock (h : H) (steps : List (δ → δ))
  /-- `lost`: an `sc.w` fails though its reservation holds. -/
  | instr (h : H) (lost : Bool)

namespace Locking

variable {H δ : Type*} [DecidableEq H]

/-- `SPIN_LOCK_INIT`, with all harts elsewhere. -/
def init (d : δ) : Locking H δ := ⟨0, d, fun _ => .idle, fun _ => false, [], []⟩

variable (s : Locking H δ)

def setPc (h : H) (pc : LockPc δ) : Locking H δ := { s with pc := Function.update s.pc h pc }

/-- A store to the word. -/
def write (l : Spinlock) : Locking H δ := { s with lock := l, reserved := fun _ => false }

/-- Hart `h` has drawn a ticket. -/
def take (h : H) : Locking H δ := { s with taken := s.taken ++ [h] }

/-- Hart `h` goes into its section. -/
def enter (h : H) (steps : List (δ → δ)) : Locking H δ :=
  { s.setPc h (.inside steps) with entered := s.entered ++ [(h, steps)] }

/-- The end of `spin_trylock`: the section is entered if the value returned is true. -/
def tried (h : H) (l0 : Word) (steps : List (δ → δ)) : Locking H δ :=
  if l0.setWidth 32 = (0 : BitVec 32) then s.enter h steps else s.setPc h .idle

/-- `amoadd.w`, and what follows it up to label 1. -/
def amoaddInstr (h : H) (steps : List (δ → δ)) : Locking H δ :=
  let l0 := s.lock.loaded
  let s := (s.write (s.lock + ticketInc.setWidth 32)).take h
  s.setPc h (.compare l0 ((l0 >>> TICKET_SHIFT) &&& lockMask) steps)

def compareInstr (h : H) (l0 tmp1 : Word) (steps : List (δ → δ)) : Locking H δ :=
  let tmp2 := l0 &&& lockMask
  if tmp1 = tmp2 then s.enter h steps else s.setPc h (.reload tmp1 steps)

/-- `lr.w`, and the test that follows it. -/
def lrInstr (h : H) (steps : List (δ → δ)) : Locking H δ :=
  let l0 := s.lock.loaded
  let tmp2 := (l0 <<< TICKET_SHIFT) &&& trylockMask
  let tmp1 := l0 &&& trylockMask
  let s := { s with reserved := Function.update s.reserved h true }
  if tmp1 ≠ tmp2 then s.tried h l0 steps else s.setPc h (.sc l0 steps)

def scInstr (h : H) (l0 : Word) (steps : List (δ → δ)) (lost : Bool) : Locking H δ :=
  if s.reserved h && !lost then
    ((s.write ((l0 + ticketInc).setWidth 32)).take h).tried h 0 steps
  else { s with reserved := Function.update s.reserved h false }.setPc h (.lr steps)

def instr (h : H) (lost : Bool) : Locking H δ :=
  match s.pc h with
  | .idle => s
  | .amoadd steps => s.amoaddInstr h steps
  | .compare l0 tmp1 steps => s.compareInstr h l0 tmp1 steps
  | .reload tmp1 steps => s.setPc h (.compare s.lock.loaded tmp1 steps)
  | .lr steps => s.lrInstr h steps
  | .sc l0 steps => s.scInstr h l0 steps lost
  | .inside (f :: fs) => { s.setPc h (.inside fs) with data := f s.data }
  | .inside [] => s.setPc h (.unlock (s.lock.owner + 1))
  | .unlock owner => (s.write (s.lock.setOwner owner)).setPc h .idle

/-- A call, if the hart is in none already and does not have the lock. -/
def call (h : H) (pc : LockPc δ) : Locking H δ :=
  match s.pc h with
  | .idle => s.setPc h pc
  | _ => s

def step : LockInput H δ → Locking H δ
  | .spinLock h steps => s.call h (.amoadd steps)
  | .spinTrylock h steps => s.call h (.lr steps)
  | .instr h lost => s.instr h lost

/-- The hart has the lock. -/
def Holds (h : H) : Prop := (∃ steps, s.pc h = .inside steps) ∨ ∃ v, s.pc h = .unlock v

/-- The hart has drawn a ticket and spins. -/
def Spins (h : H) : Prop :=
  (∃ l0 tmp1 steps, s.pc h = .compare l0 tmp1 steps) ∨ ∃ tmp1 steps, s.pc h = .reload tmp1 steps

/-- The hart spins, and its ticket is the one being served. -/
def Served (h : H) : Prop :=
  ∃ tmp1 steps, tmp1 = s.lock.owner.setWidth 64 ∧
    (s.pc h = .reload tmp1 steps ∨ ∃ l0, s.pc h = .compare l0 tmp1 steps)

end Locking

/-- The input is an instruction of hart `h`. -/
def LockInput.isInstrOf {H δ : Type*} [DecidableEq H] (h : H) : LockInput H δ → Bool
  | .instr g _ => g = h
  | _ => false

end Dorami.Sbi
