import Dorami.Lib.Keccak
import Dorami.Sm.Sha3

/-!
# Proofs about SHA-3

`sha3_keccakf` is the permutation of the standard, seen bit by bit (`array`): its tables of
rotations and of places are the standard's offsets along the path through the lanes, and its round
constants come from the shift register. On top of that, `sha3_update` in any number of pieces and
`sha3_final` are the sponge with the padding `10*1` after the bits `01`.
-/

namespace Dorami.Sm

open Riscv Lib

/-- The state as the standard's array of bits. -/
def Sha3State.array (st : Sha3State) : Keccak.State := fun x y z => (st.lane y x).getLsbD z.val

/-! ## The maps of a round -/

section Round

variable {st : Sha3State}

theorem lane_ofLanes (f : Fin 5 → Fin 5 → Word) (j i : Fin 5) :
    (Sha3State.ofLanes f).lane j i = f j i := by
  have hj : (5 * j.val + i.val) / 5 = j.val := by omega
  have hi : (5 * j.val + i.val) % 5 = i.val := by omega
  show (Vector.ofFn _)[5 * j.val + i.val] = _
  rw [Vector.getElem_ofFn]
  simp only [hj, hi]

theorem rotl64_getLsbD (w : Word) {n : Nat} (hn : n < 64) (z : Fin 64) :
    (rotl64 w n).getLsbD z.val = w.getLsbD (z - Fin.ofNat 64 n).val := by
  have hz := z.isLt
  have hsub : (z - Fin.ofNat 64 n).val = (64 - n + z.val) % 64 := by
    rw [Fin.sub_def]
    simp [Nat.mod_eq_of_lt hn]
  rw [rotl64, BitVec.getLsbD_or, BitVec.getLsbD_shiftLeft, BitVec.getLsbD_ushiftRight, hsub]
  rcases Nat.lt_or_ge z.val n with hlt | hge
  · rw [Nat.mod_eq_of_lt (by omega)]
    simp [hlt]
  · rw [BitVec.getLsbD_of_ge w (64 - n + z.val) (by omega),
      show (64 - n + z.val) % 64 = z.val - n by omega]
    simp [Nat.not_lt.2 hge, hz]

theorem array_theta : (sha3Theta st).array = Keccak.theta st.array := by
  funext x y z
  have hsub : x - 1 = x + 4 := by revert x; decide
  have hbit : ∀ i : Fin 5, (Vector.ofFn (n := 5) fun i : Fin 5 =>
      st.lane 0 i ^^^ st.lane 1 i ^^^ st.lane 2 i ^^^ st.lane 3 i ^^^ st.lane 4 i).get i =
      st.lane 0 i ^^^ st.lane 1 i ^^^ st.lane 2 i ^^^ st.lane 3 i ^^^ st.lane 4 i :=
    fun i => Vector.getElem_ofFn i.isLt
  unfold Sha3State.array sha3Theta
  rw [lane_ofLanes, hbit, hbit, BitVec.getLsbD_xor, BitVec.getLsbD_xor,
    rotl64_getLsbD _ (by decide)]
  simp only [BitVec.getLsbD_xor, Keccak.theta, Keccak.parity, hsub]
  rfl

/-- The tables follow the path of the standard: turn `k` carries the lane that goes to `(x, y)`, by
that lane's offset. -/
theorem tables_path : ∀ x y : Fin 5, (x = 0 ∧ y = 0) ∨ ∃ k : Fin 24,
    (keccakfPiln.getD k 0).val = 5 * y.val + x.val ∧
    ((1 :: keccakfPiln).getD k 1).val = 5 * x.val + (x + 3 * y).val ∧
    keccakfRotc.getD k 0 = Keccak.offset (x + 3 * y) x % 64 := by decide +kernel

theorem get_rhoPi (k : Fin 24) : (sha3RhoPi st).get (keccakfPiln.getD k 0) =
    rotl64 (st.get ((1 :: keccakfPiln).getD k 1)) (keccakfRotc.getD k 0) := by
  have htargets : (keccakfPiln.zip keccakfRotc).map Prod.fst = keccakfPiln := by decide
  have hnodup : ((keccakfPiln.zip keccakfRotc).map Prod.fst).Nodup := by decide
  have hlen : k.val < (keccakfPiln.zip keccakfRotc).length := k.isLt
  have hturn : (keccakfPiln.zip keccakfRotc)[k.val] =
      (keccakfPiln.getD k 0, keccakfRotc.getD k 0) := by
    revert k
    decide
  have h := Keccak.run_turn_get (g := rotl64) hnodup st 1 hlen
  rw [htargets, hturn] at h
  exact h

theorem lane_zero_rhoPi : (sha3RhoPi st).lane 0 0 = st.lane 0 0 :=
  Keccak.run_turn_get_of_notMem (g := rotl64) (by decide)

theorem array_rhoPi : (sha3RhoPi st).array = Keccak.pi (Keccak.rho st.array) := by
  funext x y z
  rcases tables_path x y with ⟨rfl, rfl⟩ | ⟨k, hto, hfrom, hoff⟩
  · have hoff : Fin.ofNat 64 (Keccak.offset (0 + 3 * 0) 0) = 0 := by decide +kernel
    have hsub : z - 0 = z := by revert z; decide
    show ((sha3RhoPi st).lane 0 0).getLsbD z.val =
      (st.lane 0 (0 + 3 * 0)).getLsbD (z - Fin.ofNat 64 (Keccak.offset (0 + 3 * 0) 0)).val
    rw [lane_zero_rhoPi, hoff, hsub]
    rfl
  · have hlane : (sha3RhoPi st).lane y x = (sha3RhoPi st).get (keccakfPiln.getD k 0) :=
      congrArg (sha3RhoPi st).get (Fin.ext hto.symm)
    have hold : st.get ((1 :: keccakfPiln).getD k 1) = st.lane x (x + 3 * y) :=
      congrArg st.get (Fin.ext hfrom)
    have hmod : Fin.ofNat 64 (Keccak.offset (x + 3 * y) x % 64) =
        Fin.ofNat 64 (Keccak.offset (x + 3 * y) x) := Fin.ext (Nat.mod_mod _ _)
    show ((sha3RhoPi st).lane y x).getLsbD z.val = _
    rw [hlane, get_rhoPi, hold, hoff, rotl64_getLsbD _ (Nat.mod_lt _ (by decide)), hmod]
    rfl

theorem array_chi : (sha3Chi st).array = Keccak.chi st.array := by
  funext x y z
  unfold Sha3State.array sha3Chi
  rw [lane_ofLanes, BitVec.getLsbD_xor, BitVec.getLsbD_and, BitVec.getLsbD_not]
  simp [Keccak.chi]

theorem rndc_bits : ∀ (i : Fin 24) (z : Fin 64),
    (keccakfRndc.getD i 0).getLsbD z = Keccak.roundConstant i z := by decide +kernel

theorem lane_set_zero (w : Word) (y x : Fin 5) :
    Sha3State.lane (st.set 0 w (Nat.zero_lt_succ 24)) y x =
        if x = 0 ∧ y = 0 then w else st.lane y x := by
  by_cases h : x = 0 ∧ y = 0
  · obtain ⟨rfl, rfl⟩ := h
    rw [if_pos ⟨rfl, rfl⟩]
    exact Keccak.get_set_self (i := 0)
  · rw [if_neg h]
    refine Keccak.get_set_of_ne (i := 0) fun heq => h ?_
    have hval : 5 * y.val + x.val = 0 := congrArg Fin.val heq
    exact ⟨Fin.ext (by show x.val = 0; omega), Fin.ext (by show y.val = 0; omega)⟩

theorem array_round (i : Fin 24) :
    (sha3Round st (keccakfRndc.getD i 0)).array = Keccak.round st.array i := by
  have hchi : (sha3Chi (sha3RhoPi (sha3Theta st))).array =
      Keccak.chi (Keccak.pi (Keccak.rho (Keccak.theta st.array))) := by
    rw [array_chi, array_rhoPi, array_theta]
  unfold Keccak.round sha3Round
  rw [← hchi]
  generalize sha3Chi (sha3RhoPi (sha3Theta st)) = st'
  funext x y z
  show (Sha3State.lane (st'.set 0 _) y x).getLsbD z.val = Keccak.iota i st'.array x y z
  rw [lane_set_zero]
  unfold Keccak.iota
  split
  · next h =>
    obtain ⟨rfl, rfl⟩ := h
    rw [BitVec.getLsbD_xor, rndc_bits]
    rfl
  · rfl

end Round

/-- The permutation is the one of the standard. -/
theorem array_keccakf (st : Sha3State) : (sha3Keccakf st).array = Keccak.permute st.array := by
  have hrndc : keccakfRndc = (List.finRange 24).map fun i : Fin 24 =>
    keccakfRndc.getD i 0 := by decide
  have hrange : List.range 24 = (List.finRange 24).map Fin.val := by decide
  have hrun : ∀ (is : List (Fin 24)) (st : Sha3State),
      (run sha3Round st (is.map fun i : Fin 24 => keccakfRndc.getD i 0)).array =
        run Keccak.round st.array (is.map Fin.val) := by
    intro is
    induction is with
    | nil => exact fun _ => rfl
    | cons i is ih =>
      intro st
      rw [List.map_cons, List.map_cons, run_cons, run_cons, ih, array_round]
  unfold sha3Keccakf Keccak.permute
  rw [hrndc, hrange]
  exact hrun _ st

/-! ## The state as a string -/

/-- The state as the standard's string of bits. -/
def Sha3State.string (st : Sha3State) : Fin 1600 → Bool := Keccak.toString st.array

section String

variable {st : Sha3State}

theorem string_apply (i : Fin 1600) :
    st.string i = (st.get ⟨i.val / 64, by omega⟩).getLsbD (i.val % 64) := by
  have hi : 5 * (i.val / 64 / 5) + i.val / 64 % 5 = i.val / 64 := Nat.div_add_mod _ _
  show (st.get ⟨5 * (i.val / 64 / 5) + i.val / 64 % 5, _⟩).getLsbD (i.val % 64) = _
  simp only [hi]

theorem ofString_toString (A : Keccak.State) : Keccak.ofString (Keccak.toString A) = A := by
  funext x y z
  have hlane : (64 * (5 * y.val + x.val) + z.val) / 64 = 5 * y.val + x.val := by omega
  have hx : (5 * y.val + x.val) % 5 = x.val := by omega
  have hy : (5 * y.val + x.val) / 5 = y.val := by omega
  have hz : (64 * (5 * y.val + x.val) + z.val) % 64 = z.val := by omega
  simp only [Keccak.ofString, Keccak.toString, hlane, hx, hy, hz]

theorem string_keccakf : (sha3Keccakf st).string = Keccak.permuteString st.string := by
  unfold Sha3State.string Keccak.permuteString
  rw [array_keccakf, ofString_toString]

/-- `xorByte` at a place that may be out of the state. -/
def Sha3State.mix (st : Sha3State) (j : Nat) (b : Byte) : Sha3State :=
  if h : j < 200 then st.xorByte ⟨j, h⟩ b else st

theorem mix_eq {j : Nat} (h : j < 200) (b : Byte) : st.mix j b = st.xorByte ⟨j, h⟩ b := dif_pos h

theorem string_xorByte (j : Fin 200) (b : Byte) (i : Fin 1600) :
    (st.xorByte j b).string i =
        (st.string i ^^ (decide (i.val / 8 = j.val) && b.getLsbD (i.val % 8))) := by
  have hi := i.isLt
  rw [string_apply, string_apply]
  unfold Sha3State.xorByte
  by_cases hword : i.val / 64 = j.val / 8
  · have heq : (⟨i.val / 64, by omega⟩ : Fin 25) = ⟨j.val / 8, by omega⟩ := Fin.ext hword
    rw [heq, Keccak.get_set_self, BitVec.getLsbD_xor, BitVec.getLsbD_shiftLeft,
      BitVec.getLsbD_setWidth]
    congr 1
    by_cases hbyte : i.val / 8 = j.val
    · have hoff : i.val % 64 - 8 * (j.val % 8) = i.val % 8 := by omega
      simp [hbyte, hoff, show ¬ i.val % 64 < 8 * (j.val % 8) by omega,
        show i.val % 64 < 64 by omega,
        show i.val % 8 < 64 by omega]
    · rcases Nat.lt_or_ge (i.val % 64) (8 * (j.val % 8)) with hlt | hge
      · simp [hbyte, hlt]
      · rw [BitVec.getLsbD_of_ge b _ (by omega)]
        simp [hbyte]
  · have hne : (⟨i.val / 64, by omega⟩ : Fin 25) ≠ ⟨j.val / 8, by omega⟩ :=
      fun h => hword (congrArg Fin.val h)
    have hbyte : i.val / 8 ≠ j.val := by omega
    rw [Keccak.get_set_of_ne hne]
    simp [hbyte]

theorem string_mixFrom (bs : List Byte) (j : Nat) (i : Fin 1600) :
    (mixFrom Sha3State.mix st j bs).string i =
      (st.string i ^^ (decide (j ≤ i.val / 8) &&
          (bs.getD (i.val / 8 - j) 0).getLsbD (i.val % 8))) := by
  induction bs generalizing st j with
  | nil => simp [mixFrom]
  | cons b bs ih =>
    have hi := i.isLt
    have hmix : (st.mix j b).string i =
        (st.string i ^^ (decide (i.val / 8 = j) && b.getLsbD (i.val % 8))) := by
      by_cases hj : j < 200
      · rw [mix_eq hj, string_xorByte]
      · rw [Sha3State.mix, dif_neg hj]
        simp [show i.val / 8 ≠ j by omega]
    rw [mixFrom, ih, hmix]
    rcases Nat.lt_trichotomy (i.val / 8) j with hlt | heq | hgt
    · simp [show i.val / 8 ≠ j by omega, show ¬ j + 1 ≤ i.val / 8 by omega,
        show ¬ j ≤ i.val / 8 by omega]
    · simp [heq, show ¬ j + 1 ≤ j by omega]
    · simp [show i.val / 8 ≠ j by omega, show j + 1 ≤ i.val / 8 by omega,
        show j ≤ i.val / 8 by omega,
        show i.val / 8 - j = i.val / 8 - (j + 1) + 1 by omega]

theorem byte_getLsbD (j : Fin 200) {k : Nat} (hk : k < 8) :
    (st.byte j).getLsbD k = st.string ⟨8 * j.val + k, by omega⟩ := by
  have hword : (8 * j.val + k) / 64 = j.val / 8 := by omega
  have hbit : (8 * j.val + k) % 64 = 8 * (j.val % 8) + k := by omega
  rw [string_apply]
  simp only [hword, hbit, Sha3State.byte, BitVec.getLsbD_extractLsb', hk,
    decide_true, Bool.true_and]

theorem string_block (p : List Byte) :
    (mixFrom Sha3State.mix st 0 p).string = xorBlock st.string (bits p) := by
  funext i
  rw [string_mixFrom, xorBlock, getD_bits]
  simp

theorem string_absorb (ps : List (List Byte)) :
    (run (fun st p => sha3Keccakf (mixFrom Sha3State.mix st 0 p)) st ps).string =
      absorb Keccak.permuteString st.string (ps.map bits) := by
  induction ps generalizing st with
  | nil => rfl
  | cons p ps ih =>
    rw [run_cons, ih, string_keccakf, string_block]
    rfl

end String

/-! ## Padding -/

/-- The bytes that complete the last block after `m` of its `r` bytes. -/
def sha3Pad (r m : Nat) : List Byte :=
  if m + 1 = r then [0x86] else 0x06 :: List.replicate (r - m - 2) 0 ++ [0x80]

section Padding

variable {r m : Nat}

theorem length_pad (hm : m < r) : m + (sha3Pad r m).length = r := by
  unfold sha3Pad
  split
  · assumption
  · simp
    omega

/-- The padding as bits: `01`, and then `10*1`. -/
theorem bits_pad (hm : m < r) :
    bits (sha3Pad r m) = [false, true, true] ++
        List.replicate (8 * (r - m) - 4) false ++ [true] := by
  have hzero : ∀ k, bits (List.replicate k 0) = List.replicate (8 * k) false := by
    intro k
    induction k with
    | zero => rfl
    | succ k ih =>
      rw [List.replicate_succ, show 8 * (k + 1) = 8 + 8 * k by omega,
        ← List.replicate_append_replicate, ← ih]
      rfl
  unfold sha3Pad
  split
  · next h =>
    rw [show 8 * (r - m) - 4 = 4 by omega]
    rfl
  · have hlast : bits [0x80] = List.replicate 7 false ++ [true] := rfl
    have hfirst : bits [0x06] = [false, true, true] ++ List.replicate 5 false := rfl
    rw [show 8 * (r - m) - 4 = 5 + (8 * (r - m - 2) + 7) by omega,
      ← List.replicate_append_replicate, ← List.replicate_append_replicate, ← List.singleton_append,
      bits_append, bits_append, hzero, hfirst, hlast]
    simp only [List.append_assoc]

theorem bits_padded (hr : 0 < r) (data : List Byte) :
    bits (data ++ sha3Pad r (data.length % r)) =
      (bits data ++ [false, true]) ++ pad101 (8 * r) (bits data ++ [false, true]).length := by
  have hm := Nat.mod_lt data.length hr
  have hlen : ((bits data ++ [false, true]).length + 2) % (8 * r) = 8 * (data.length % r) + 4 := by
    rw [List.length_append, length_bits, Nat.add_assoc, ← Nat.mod_add_mod, Nat.mul_mod_mul_left]
    exact Nat.mod_eq_of_lt (by show 8 * (data.length % r) + 4 < 8 * r; omega)
  have hzeros : (8 * r - (8 * (data.length % r) + 4)) % (8 * r) =
      8 * (r - data.length % r) - 4 := by
    rw [Nat.mod_eq_of_lt (by omega)]
    omega
  rw [bits_append, bits_pad hm, pad101, hlen, hzeros]
  simp

end Padding

/-! ## Hashing -/

section Hash

variable {st : Sha3State}

theorem mix_zero (j : Nat) : st.mix j 0 = st := by
  have hzero : ∀ k : Nat, (0 : Byte).setWidth 64 <<< k = 0#64 := fun k => by simp
  unfold Sha3State.mix
  split
  · unfold Sha3State.xorByte
    dsimp only
    rw [hzero, BitVec.xor_zero]
    exact Vector.set_getElem_self _
  · rfl

theorem mix_mix (j : Nat) (a b : Byte) : (st.mix j a).mix j b = st.mix j (a ^^^ b) := by
  by_cases hj : j < 200
  · rw [mix_eq hj, mix_eq hj, mix_eq hj]
    have hget : ∀ w : Word, (Vector.set st (j / 8) w (by omega)).get ⟨j / 8, by omega⟩ = w :=
      fun w => Keccak.get_set_self (i := ⟨j / 8, by omega⟩)
    unfold Sha3State.xorByte
    dsimp only
    rw [hget, Vector.set_set, BitVec.xor_assoc, ← BitVec.shiftLeft_xor_distrib,
      ← BitVec.setWidth_xor]
  · simp [Sha3State.mix, hj]

theorem mixFrom_zeros (k j : Nat) : mixFrom Sha3State.mix st j (List.replicate k 0) = st := by
  induction k generalizing j with
  | zero => rfl
  | succ k ih => rw [List.replicate_succ, mixFrom, mix_zero, ih]

/-- What `sha3_final` does with the last block. -/
def sha3Finish (r : Nat) (c : Sha3State × Nat) : Sha3State :=
  sha3Keccakf ((c.1.mix c.2 0x06).mix (r - 1) 0x80)

theorem finishes (r : Nat) : Finishes Sha3State.mix sha3Keccakf r (sha3Finish r) (sha3Pad r) where
  length_pad := fun _ => length_pad
  finish_eq := by
    intro s us hlt
    rw [mixFrom_append, Nat.zero_add]
    generalize mixFrom Sha3State.mix s 0 us = s'
    unfold sha3Finish sha3Pad
    congr 1
    split
    · next hlast =>
      rw [show r - 1 = us.length by omega, mix_mix]
      rfl
    · rw [List.cons_append, mixFrom, mixFrom_append, mixFrom_zeros, List.length_replicate,
        show us.length + 1 + (r - us.length - 2) = r - 1 by omega]
      rfl

theorem absorb_feed (c : Sha3Ctx) (b : Byte) :
    ((c.absorb b).st, (c.absorb b).pt) = feed Sha3State.mix sha3Keccakf c.rsiz (c.st, c.pt) b := by
  have hpt : c.pt < 200 := Nat.lt_of_lt_of_le c.pt_lt c.rsiz_le
  unfold Sha3Ctx.absorb feed
  dsimp only
  rw [mix_eq hpt]
  split <;> rfl

theorem update_run (c : Sha3Ctx) (data : List Byte) :
    (sha3Update c data).rsiz = c.rsiz ∧ (sha3Update c data).mdlen = c.mdlen ∧
      ((sha3Update c data).st, (sha3Update c data).pt) =
        run (feed Sha3State.mix sha3Keccakf c.rsiz) (c.st, c.pt) data := by
  induction data generalizing c with
  | nil => exact ⟨rfl, rfl, rfl⟩
  | cons b data ih =>
    have hrsiz : (c.absorb b).rsiz = c.rsiz := by unfold Sha3Ctx.absorb; dsimp only; split <;> rfl
    have hmdlen : (c.absorb b).mdlen = c.mdlen := by
      unfold Sha3Ctx.absorb; dsimp only; split <;> rfl
    obtain ⟨h₁, h₂, h₃⟩ := ih (c.absorb b)
    refine ⟨h₁.trans hrsiz, h₂.trans hmdlen, ?_⟩
    rw [absorb_feed, hrsiz] at h₃
    exact h₃

/-- The hash is the start of the state that is left. -/
theorem bits_final (c : Sha3Ctx) :
    bits (sha3Final c) = (List.ofFn (sha3Finish c.rsiz (c.st, c.pt)).string).take
        (8 * c.mdlen) := by
  have hpt : c.pt < 200 := Nat.lt_of_lt_of_le c.pt_lt c.rsiz_le
  have hlast : c.rsiz - 1 < 200 := by have := c.pt_lt; have := c.rsiz_le; omega
  have hlen := c.mdlen_le
  have hst : sha3Final c = List.ofFn fun i : Fin c.mdlen =>
      (sha3Finish c.rsiz (c.st, c.pt)).byte ⟨i.val, by omega⟩ := by
    unfold sha3Finish
    rw [mix_eq hpt, mix_eq hlast]
    rfl
  rw [hst]
  generalize sha3Finish c.rsiz (c.st, c.pt) = st
  apply List.ext_getElem
  · rw [length_bits, List.length_ofFn, List.length_take, List.length_ofFn]
    omega
  · intro i hi _
    have hi' : i < 8 * c.mdlen := by
      rw [length_bits, List.length_ofFn] at hi
      exact hi
    have hplace : 8 * (i / 8) + i % 8 = i := Nat.div_add_mod i 8
    rw [← List.getD_eq_getElem _ false, getD_bits, List.getElem_take, List.getElem_ofFn,
      List.getD_eq_getElem _ _ (by rw [List.length_ofFn]; omega), List.getElem_ofFn,
      byte_getLsbD _ (Nat.mod_lt _ (by decide))]
    exact congrArg st.string (Fin.ext hplace)

theorem update_pieces (c : Sha3Ctx) (pieces : List (List Byte)) :
    run sha3Update c pieces = sha3Update c pieces.flatten := by
  induction pieces generalizing c with
  | nil => rfl
  | cons piece pieces ih =>
    rw [run_cons, ih, List.flatten_cons]
    exact (run_append c piece pieces.flatten).symm

/-- Data hashed in any number of pieces has the hash that the standard gives for the whole. A hash
may not be longer than a block, as the code only reads the state once. -/
theorem sha3_meets_standard (pieces : List (List Byte)) (mdlen : Nat) (h : mdlen ≤ 66) :
    bits (sha3Final (run sha3Update (sha3Init mdlen (by omega)) pieces)) =
      Keccak.sha3 (8 * mdlen) (bits pieces.flatten) := by
  have hr : 0 < 200 - 2 * mdlen := by omega
  have hrate : 1600 - 2 * (8 * mdlen) = 8 * (200 - 2 * mdlen) := by omega
  have hzero : Sha3State.string (Vector.replicate 25 0) = fun _ => false := by
    funext i
    rw [string_apply]
    show BitVec.getLsbD (Vector.replicate 25 (0 : Word))[i.val / 64] _ = false
    rw [Vector.getElem_replicate]
    exact BitVec.getLsbD_zero
  obtain ⟨hrsiz, hmdlen, hrun⟩ := update_run (sha3Init mdlen (by omega)) pieces.flatten
  have hrsiz' : (sha3Update (sha3Init mdlen (by omega)) pieces.flatten).rsiz = 200 - 2 * mdlen :=
    hrsiz
  have hmdlen' : (sha3Update (sha3Init mdlen (by omega)) pieces.flatten).mdlen = mdlen := hmdlen
  have hblocks := (finishes (200 - 2 * mdlen)).run hr (Vector.replicate 25 0) pieces.flatten
  rw [update_pieces, bits_final, hrsiz', hmdlen', hrun]
  unfold Keccak.sha3 sponge
  rw [squeeze_of_le (by omega) (by omega), hrate, ← bits_padded hr, ← map_bits_blocks hr, ← hzero,
    ← string_absorb]
  exact congrArg (fun s => (List.ofFn (Sha3State.string s)).take (8 * mdlen)) hblocks

theorem sha3_512_meets_standard : 64 ≤ 66 ∧
    bits (sha3Final (run sha3Update (sha3Init 64 (by omega)) [[0x61], [], [0x62, 0x63]])) =
      Keccak.sha3 (8 * 64) (bits [0x61, 0x62, 0x63]) :=
  ⟨by decide, sha3_meets_standard [[0x61], [], [0x62, 0x63]] 64 (by decide)⟩

end Hash

end Dorami.Sm
