import Dorami.Lib.Sponge

/-!
# Keccak-f[1600] and SHA-3, bit by bit

The permutation on an array of bits `A x y z`, as five maps that say of each bit of the result which
bits it depends on, and the hash functions as sponges over it. Rotation offsets and round constants
are computed, not listed: the offsets along a path through the lanes, the constants from a shift
register.
-/

namespace Dorami.Lib.Keccak

/-- The bit in column `x`, row `y`, at place `z` of its lane. -/
abbrev State := Fin 5 → Fin 5 → Fin 64 → Bool

/-! ## The maps of a round -/

def parity (A : State) (x : Fin 5) (z : Fin 64) : Bool :=
  A x 0 z ^^ A x 1 z ^^ A x 2 z ^^ A x 3 z ^^ A x 4 z

def theta (A : State) : State :=
  fun x y z => A x y z ^^ (parity A (x - 1) z ^^ parity A (x + 1) (z - 1))

/-- The lanes in the order in which they get their offsets. -/
def path : Nat → Fin 5 × Fin 5
  | 0 => (1, 0)
  | t + 1 => ((path t).2, 2 * (path t).1 + 3 * (path t).2)

/-- By how much a lane is rotated; the lane at the origin is not on the path. -/
def offset (x y : Fin 5) : Nat :=
  match (List.range 24).find? fun t => path t = (x, y) with
  | some t => (t + 1) * (t + 2) / 2
  | none => 0

def rho (A : State) : State := fun x y z => A x y (z - Fin.ofNat 64 (offset x y))

def pi (A : State) : State := fun x y z => A (x + 3 * y) x z

def chi (A : State) : State := fun x y z => A x y z ^^ (!A (x + 1) y z && A (x + 2) y z)

/-- The shift register after `t` steps. -/
def lfsr : Nat → BitVec 8
  | 0 => 1
  | t + 1 => lfsr t <<< 1 ^^^ if (lfsr t).msb then 0x71 else 0

/-- The bits that are not zero in any round constant stand at the places `2 ^ j - 1`. -/
def roundConstant (i : Nat) (z : Fin 64) : Bool :=
  (List.range 7).any fun j => z.val = 2 ^ j - 1 && (lfsr (j + 7 * i)).getLsbD 0

def iota (i : Nat) (A : State) : State := fun x y z =>
  if x = 0 ∧ y = 0 then A x y z ^^ roundConstant i z else A x y z

/-- Round `i`. -/
def round (A : State) (i : Nat) : State := iota i (chi (pi (rho (theta A))))

def permute (A : State) : State := run round A (List.range 24)

/-! ## Hash functions -/

/-- The array for a string, lane after lane and row after row. -/
def ofString (s : Fin 1600 → Bool) : State :=
  fun x y z => s ⟨64 * (5 * y.val + x.val) + z.val, by omega⟩

def toString (A : State) : Fin 1600 → Bool := fun i =>
  A ⟨i.val / 64 % 5, by omega⟩ ⟨i.val / 64 / 5, by omega⟩ ⟨i.val % 64, by omega⟩

def permuteString (s : Fin 1600 → Bool) : Fin 1600 → Bool := toString (permute (ofString s))

/-- The hash of `d` bits of the message `m`, which ends with the bits `01`; the
capacity is `2 * d`. -/
def sha3 (d : Nat) (m : List Bool) : List Bool :=
  sponge permuteString (1600 - 2 * d) (m ++ [false, true]) d

/-! ## Words moved along a chain

An implementation moves the lanes in place: each one goes to the place of the next, which is
taken up first. -/

section Chain

variable {α β : Type*} {n : Nat} (g : α → β → α)

/-- The word in hand is put down, changed, and the one that was there is taken up. -/
def turn (acc : Vector α n × α) (e : Fin n × β) : Vector α n × α :=
  (acc.1.set e.1 (g acc.2 e.2), acc.1.get e.1)

variable {g}

theorem get_set_of_ne {st : Vector α n} {i j : Fin n} {a : α} (h : j ≠ i) :
    (st.set i a).get j = st.get j := by
  have hval : i.val ≠ j.val := fun heq => h (Fin.ext heq.symm)
  exact Vector.getElem_set_ne i.isLt j.isLt hval

theorem get_set_self {st : Vector α n} {i : Fin n} {a : α} : (st.set i a).get i = a :=
  Vector.getElem_set_self i.isLt

/-- A place that is not on the chain keeps its word. -/
theorem run_turn_get_of_notMem {turns : List (Fin n × β)} {st : Vector α n} {t : α} {i : Fin n}
    (hi : i ∉ turns.map Prod.fst) : (run (turn g) (st, t) turns).1.get i = st.get i := by
  induction turns generalizing st t with
  | nil => rfl
  | cons e turns ih =>
    rw [List.map_cons, List.mem_cons, not_or] at hi
    rw [run_cons, turn, ih hi.2, get_set_of_ne hi.1]

/-- Place `k` of the chain gets the word of the place before, as it was at the start. -/
theorem run_turn_get {turns : List (Fin n × β)} (hnodup : (turns.map Prod.fst).Nodup)
    (st : Vector α n) (start : Fin n) {k : Nat} (hk : k < turns.length) :
    (run (turn g) (st, st.get start) turns).1.get turns[k].1 =
      g (st.get ((start :: turns.map Prod.fst).getD k start)) turns[k].2 := by
  -- the word in hand is any word: it need not come from the vector
  suffices h : ∀ t, (run (turn g) (st, t) turns).1.get turns[k].1 =
      g ((t :: turns.map fun e => st.get e.1).getD k t) turns[k].2 by
    rw [h]
    cases k with
    | zero => rfl
    | succ k => simp [Nat.lt_of_succ_lt hk]
  intro t
  induction turns generalizing st t k with
  | nil => exact absurd hk (Nat.not_lt_zero _)
  | cons e turns ih =>
    rw [List.map_cons, List.nodup_cons] at hnodup
    cases k with
    | zero =>
      show (run (turn g) (turn g (st, t) e) turns).1.get e.1 = g t e.2
      rw [turn, run_turn_get_of_notMem hnodup.1, get_set_self]
    | succ k =>
      have hk' : k < turns.length := Nat.lt_of_succ_lt_succ hk
      show (run (turn g) (turn g (st, t) e) turns).1.get turns[k].1 = _
      rw [turn, ih hnodup.2 _ hk']
      cases k with
      | zero => rfl
      | succ k =>
        have hmem : turns[k].1 ∈ turns.map Prod.fst := List.mem_map_of_mem (List.getElem_mem _)
        have hne : turns[k].1 ≠ e.1 := fun heq => hnodup.1 (heq ▸ hmem)
        simp [Nat.lt_of_succ_lt hk', get_set_of_ne hne]

end Chain

end Dorami.Lib.Keccak
