import Dorami.Lib.Run
import Mathlib.Data.List.GetD

/-!
# The sponge construction

A sponge takes in a string block by block, each one combined with the state before the state is
permuted, and gives out the first part of the state (`sponge`, over strings of bits). An
implementation takes in smaller units, one at a time, and permutes the state whenever a block is
full (`feed`). Whatever it does at the end, if that amounts to a last block with a padding
(`Finishes.run`), it has taken in the blocks of the padded message.
-/

namespace Dorami.Lib

/-! ## The blocks of a string -/

section Blocks

variable {α : Type*} {r : Nat} {p q : List α}

/-- The blocks of `r` units, without an incomplete last one. -/
def blocks (r : Nat) (p : List α) : List (List α) :=
  (List.range (p.length / r)).map fun i => (p.drop (i * r)).take r

theorem blocks_of_lt (h : p.length < r) : blocks r p = [] := by
  simp [blocks, Nat.div_eq_of_lt h]

theorem blocks_append (hr : 0 < r) (hp : p.length = r) : blocks r (p ++ q) = p :: blocks r q := by
  have hlen : (p ++ q).length / r = q.length / r + 1 := by
    rw [List.length_append, hp, Nat.add_div_left _ hr]
  unfold blocks
  rw [hlen, List.range_succ_eq_map, List.map_cons, List.map_map]
  congr 1
  · rw [Nat.zero_mul, List.drop_zero, List.take_left' hp]
  · apply List.map_congr_left
    intro i _
    have hdrop : (i + 1) * r = p.length + i * r := by rw [hp, Nat.succ_mul, Nat.add_comm]
    show ((p ++ q).drop ((i + 1) * r)).take r = _
    rw [hdrop, ← List.drop_drop, List.drop_left]

theorem blocks_of_length_eq (hr : 0 < r) (hp : p.length = r) : blocks r p = [p] := by
  have hnil : blocks r ([] : List α) = [] := blocks_of_lt hr
  have h := blocks_append (q := []) hr hp
  rwa [List.append_nil, hnil] at h

end Blocks

/-! ## The construction -/

section Sponge

variable {b : Nat} (f : (Fin b → Bool) → Fin b → Bool) (r : Nat)

/-- The padding `10*1`, up to a multiple of `x` bits after `m` bits. -/
def pad101 (x m : Nat) : List Bool := true :: List.replicate ((x - (m + 2) % x) % x) false ++ [true]

def xorBlock (s : Fin b → Bool) (p : List Bool) : Fin b → Bool := fun i => s i ^^ p.getD i false

def absorb (s : Fin b → Bool) (ps : List (List Bool)) : Fin b → Bool :=
  run (fun s p => f (xorBlock s p)) s ps

/-- The first `d` bits given out, `r` from each state. -/
def squeeze (d : Nat) (s : Fin b → Bool) : List Bool :=
  ((List.range (d / r + 1)).flatMap fun k => (List.ofFn (f^[k] s)).take r).take d

def sponge (n : List Bool) (d : Nat) : List Bool :=
  squeeze f r d (absorb f (fun _ => false) (blocks r (n ++ pad101 r n.length)))

variable {f r}

/-- A result no longer than a block is the start of the state. -/
theorem squeeze_of_le {d : Nat} {s : Fin b → Bool} (hd : d ≤ r) (hr : r ≤ b) :
    squeeze f r d s = (List.ofFn s).take d := by
  unfold squeeze
  rw [List.range_succ_eq_map, List.flatMap_cons, Function.iterate_zero, id_eq,
    List.take_append_of_le_length (by simp; omega), List.take_take, Nat.min_eq_left hd]

end Sponge

/-! ## Units taken in one at a time -/

section Units

variable {σ υ : Type*} (mix : σ → Nat → υ → σ) (f : σ → σ) (r : Nat)

/-- Units combined with the state from place `j` on. -/
def mixFrom (s : σ) : Nat → List υ → σ
  | _, [] => s
  | j, u :: us => mixFrom (mix s j u) (j + 1) us

/-- The state and the next place after another unit. -/
def feed (c : σ × Nat) (u : υ) : σ × Nat :=
  if r ≤ c.2 + 1 then (f (mix c.1 c.2 u), 0) else (mix c.1 c.2 u, c.2 + 1)

variable {mix f r}

theorem mixFrom_append (s : σ) (j : Nat) (us vs : List υ) :
    mixFrom mix s j (us ++ vs) = mixFrom mix (mixFrom mix s j us) (j + us.length) vs := by
  induction us generalizing s j with
  | nil => rfl
  | cons u us ih =>
    have hj : j + (u :: us).length = j + 1 + us.length := by simp; omega
    rw [hj]
    exact ih _ _

theorem run_feed_lt {us : List υ} {s : σ} {j : Nat} (h : j + us.length < r) :
    run (feed mix f r) (s, j) us = (mixFrom mix s j us, j + us.length) := by
  induction us generalizing s j with
  | nil => rfl
  | cons u us ih =>
    rw [List.length_cons] at h ⊢
    have hstep : feed mix f r (s, j) u = (mix s j u, j + 1) := if_neg (by show ¬ r ≤ j + 1; omega)
    rw [run_cons, hstep, ih (by omega)]
    exact Prod.ext rfl (by show j + 1 + us.length = _; omega)

/-- The unit that fills a block has the state permuted. -/
theorem run_feed_block {p : List υ} {s : σ} (hr : 0 < r) (hp : p.length = r) :
    run (feed mix f r) (s, 0) p = (f (mixFrom mix s 0 p), 0) := by
  have hne : p ≠ [] := by
    rintro rfl
    exact absurd hp (Nat.ne_of_lt hr)
  obtain ⟨us, u, rfl⟩ := (List.eq_nil_or_concat p).resolve_left hne
  rw [List.concat_eq_append] at hp ⊢
  rw [List.length_append, List.length_singleton] at hp
  have hfull : r ≤ 0 + us.length + 1 := by omega
  have hpart : run (feed mix f r) (s, 0) us = (mixFrom mix s 0 us, 0 + us.length) :=
    run_feed_lt (by omega)
  rw [run_append, hpart, mixFrom_append]
  exact if_pos hfull

/-- What is done after the last unit makes the units left over, with a padding that depends on their
number, the last block. -/
structure Finishes (mix : σ → Nat → υ → σ) (f : σ → σ) (r : Nat) (finish : σ × Nat → σ)
    (pad : Nat → List υ) : Prop where
  length_pad : ∀ m < r, m + (pad m).length = r
  finish_eq : ∀ (s : σ) (us : List υ), us.length < r →
    finish (mixFrom mix s 0 us, us.length) = f (mixFrom mix s 0 (us ++ pad us.length))

/-- A whole message has been taken in block by block, padded. -/
theorem Finishes.run {finish : σ × Nat → σ} {pad : Nat → List υ} (h : Finishes mix f r finish pad)
    (hr : 0 < r) (s : σ) (us : List υ) :
    finish (run (feed mix f r) (s, 0) us) =
      run (fun s p => f (mixFrom mix s 0 p)) s (blocks r (us ++ pad (us.length % r))) := by
  -- by recursion on the message, which either fits into one block or starts with a full one
  induction hn : us.length using Nat.strong_induction_on generalizing us s with
  | _ n ih =>
    subst hn
    rcases Nat.lt_or_ge us.length r with hlt | hge
    · rw [run_feed_lt (by omega), Nat.mod_eq_of_lt hlt, Nat.zero_add, h.finish_eq s us hlt,
        blocks_of_length_eq hr (by rw [List.length_append]; exact h.length_pad _ hlt)]
      rfl
    · have htake : (us.take r).length = r := by rw [List.length_take]; omega
      have hdrop : (us.drop r).length = us.length - r := List.length_drop
      have hsplit : us = us.take r ++ us.drop r := (List.take_append_drop r us).symm
      have hmod : us.length % r = (us.drop r).length % r := by
        rw [hdrop, ← Nat.mod_eq_sub_mod hge]
      have hrest := ih _ (by omega) (f (mixFrom mix s 0 (us.take r))) (us.drop r) rfl
      rw [hmod]
      generalize us.drop r = rest at hsplit hrest
      rw [hsplit, run_append, run_feed_block hr htake, hrest, List.append_assoc,
        blocks_append hr htake]
      rfl

end Units

/-! ## Bytes as bits -/

/-- The bits of a string of bytes, the low bit of each first. -/
def bits (bs : List (BitVec 8)) : List Bool :=
  bs.flatMap fun b => List.ofFn fun i : Fin 8 => b.getLsbD i.val

section Bits

variable {bs cs : List (BitVec 8)}

@[simp] theorem length_bits (bs : List (BitVec 8)) : (bits bs).length = 8 * bs.length := by
  induction bs with
  | nil => rfl
  | cons b bs ih =>
    show (List.ofFn _ ++ bits bs).length = _
    rw [List.length_append, ih, List.length_ofFn, List.length_cons]
    omega

theorem bits_append : bits (bs ++ cs) = bits bs ++ bits cs := List.flatMap_append

theorem getD_bits (i : Nat) : (bits bs).getD i false = (bs.getD (i / 8) 0).getLsbD (i % 8) := by
  induction bs generalizing i with
  | nil => simp [bits]
  | cons b bs ih =>
    show (List.ofFn (fun i : Fin 8 => b.getLsbD i.val) ++ bits bs).getD i false = _
    rcases Nat.lt_or_ge i 8 with hi | hi
    · rw [List.getD_append _ _ _ _ (by simpa using hi), Nat.div_eq_of_lt hi, Nat.mod_eq_of_lt hi,
        List.getD_eq_getElem _ _ (by simpa using hi), List.getElem_ofFn]
      rfl
    · rw [List.getD_append_right _ _ _ _ (by simpa using hi), List.length_ofFn, ih,
        show (i - 8) % 8 = i % 8 by omega, show i / 8 = (i - 8) / 8 + 1 by omega]
      rfl

/-- Blocks of bytes are blocks of bits. -/
theorem map_bits_blocks {r : Nat} (hr : 0 < r) (bs : List (BitVec 8)) :
    (blocks r bs).map bits = blocks (8 * r) (bits bs) := by
  induction hn : bs.length using Nat.strong_induction_on generalizing bs with
  | _ n ih =>
    subst hn
    rcases Nat.lt_or_ge bs.length r with hlt | hge
    · rw [blocks_of_lt hlt, blocks_of_lt (by rw [length_bits]; omega), List.map_nil]
    · have htake : (bs.take r).length = r := by rw [List.length_take]; omega
      have hrest := ih (bs.drop r).length (by rw [List.length_drop]; omega) (bs.drop r) rfl
      rw [← List.take_append_drop r bs, blocks_append hr htake, List.map_cons, bits_append,
        blocks_append (by omega) (by rw [length_bits, htake]), hrest]

end Bits

end Dorami.Lib
