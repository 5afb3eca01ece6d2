import Dorami.Lib.LittleEndian
import Dorami.Lib.Stores

/-!
# Values kept in memory

A model may keep the variables of a program in a record, apart from the memory. A store that reaches
the bytes of a variable then changes the record as well: the bytes of the value are taken, those the
stores have overwritten are replaced, and the value is read again (`Codec.patch`). Stores that keep
off the bytes leave the value alone (`Codec.patch_off`).
-/

namespace Dorami.Lib

/-- The address is one of the `n` bytes from `base` on. -/
def InBytes (base : BitVec 64) (n : Nat) (a : BitVec 64) : Prop := (a - base).toNat < n

instance InBytes.decidable (base : BitVec 64) (n : Nat) (a : BitVec 64) :
    Decidable (InBytes base n a) := inferInstanceAs (Decidable (_ < _))

theorem inBytes_add (base : BitVec 64) {i n : Nat} (hi : i < n) :
    InBytes base n (base + BitVec.ofNat 64 i) := by
  unfold InBytes
  rw [BitVec.add_comm, BitVec.add_sub_cancel, BitVec.toNat_ofNat]
  exact lt_of_le_of_lt (Nat.mod_le _ _) hi

theorem InBytes.exists_add {base a : BitVec 64} {n : Nat} (h : InBytes base n a) :
    ∃ i < n, a = base + BitVec.ofNat 64 i := by
  refine ⟨(a - base).toNat, h, ?_⟩
  rw [BitVec.ofNat_toNat, BitVec.setWidth_eq, BitVec.add_comm, BitVec.sub_add_cancel]

/-- A part of a range. -/
theorem InBytes.of_offset {base a : BitVec 64} {off k n : Nat}
    (h : InBytes (base + BitVec.ofNat 64 off) k a) (hn : off + k ≤ n) : InBytes base n a := by
  obtain ⟨i, hi, rfl⟩ := h.exists_add
  rw [BitVec.add_assoc, ← BitVec.ofNat_add]
  exact inBytes_add base (by omega)

/-! ## Values -/

/-- How a value is laid out: its size, its bytes, and the value read from bytes. -/
structure Codec (α : Type*) where
  size : Nat
  encode : α → List (BitVec 8)
  decode : List (BitVec 8) → α

/-- The bytes from `base` on after the stores. -/
def patchBytes (base : BitVec 64) (ss : List (BitVec 64 × BitVec 8)) (bs : List (BitVec 8)) :
    List (BitVec 8) :=
  bs.mapIdx fun i b => storeAll (fun _ => b) ss (base + BitVec.ofNat 64 i)

namespace Codec

variable {α β : Type*} (c : Codec α) (base : BitVec 64) (ss : List (BitVec 64 × BitVec 8)) (v : α)

/-- The value at `base` after the stores. One they do not reach is not read again. -/
def patch : α :=
  if ss.any fun s => decide (InBytes base c.size s.1) then
    c.decode (patchBytes base ss (c.encode v))
  else v

/-- The value of a member at an offset. -/
def patchAt (off : Nat) : α := c.patch (base + BitVec.ofNat 64 off) ss v

variable {base ss}

theorem patch_off (h : ∀ s ∈ ss, ¬ InBytes base c.size s.1) : c.patch base ss v = v := by
  refine if_neg ?_
  rw [List.any_eq_true]
  rintro ⟨s, hs, hw⟩
  exact h s hs (of_decide_eq_true hw)

/-- A member of a record of `n` bytes. -/
theorem patchAt_off {n : Nat} (h : ∀ s ∈ ss, ¬ InBytes base n s.1) {off : Nat}
    (hn : off + c.size ≤ n) : c.patchAt base ss v off = v :=
  c.patch_off v fun s hs hw => h s hs (hw.of_offset hn)

/-- A value that is kept as one of another type. -/
def map (encode : β → α) (decode : α → β) : Codec β :=
  ⟨c.size, c.encode ∘ encode, decode ∘ c.decode⟩

/-- A number in `n` bytes, the lowest first. -/
def nat (n : Nat) : Codec Nat := ⟨n, leBytes n, leNat⟩

/-- An array of `n` bytes. -/
def bytes (n : Nat) : Codec (List (BitVec 8)) := ⟨n, id, id⟩

/-- A word of `w` bits in `n` bytes. -/
def bits (w n : Nat) : Codec (BitVec w) := (nat n).map BitVec.toNat (BitVec.ofNat w)

/-- The bytes of a word after the stores. -/
theorem leBytes_patch {n : Nat} (base : BitVec 64) (ss : List (BitVec 64 × BitVec 8))
    (v : BitVec (8 * n)) :
    leBytes n ((bits (8 * n) n).patch base ss v).toNat =
        patchBytes base ss (leBytes n v.toNat) := by
  have hlen : (leBytes n v.toNat).length = n := by rw [leBytes, List.length_map, List.length_range]
  by_cases hhit : ss.any fun s => decide (InBytes base n s.1)
  · have hlen' : (patchBytes base ss (leBytes n v.toNat)).length = n := by
      rw [patchBytes, List.length_mapIdx, hlen]
    have hlt := leNat_lt (patchBytes base ss (leBytes n v.toNat))
    have hback := leBytes_leNat (patchBytes base ss (leBytes n v.toNat))
    rw [hlen'] at hlt hback
    have hpatch : (bits (8 * n) n).patch base ss v =
        BitVec.ofNat (8 * n) (leNat (patchBytes base ss (leBytes n v.toNat))) := if_pos hhit
    rw [hpatch, BitVec.toNat_ofNat, Nat.mod_eq_of_lt hlt, hback]
  · have hoff : ∀ s ∈ ss, ¬ InBytes base n s.1 := by
      intro s hs hin
      exact hhit (List.any_eq_true.mpr ⟨s, hs, decide_eq_true hin⟩)
    rw [patch_off (bits (8 * n) n) v hoff, patchBytes]
    refine List.ext_getElem (by rw [List.length_mapIdx]) fun k hk _ => ?_
    rw [List.getElem_mapIdx, storeAll_of_notMem]
    intro s hs heq
    exact hoff s hs (heq ▸ inBytes_add base (by omega))

/-- Each byte of a word is changed by the stores to it. -/
theorem byte_patch {n k : Nat} (hk : k < n) (base : BitVec 64) (ss : List (BitVec 64 × BitVec 8))
    (v : BitVec (8 * n)) :
    BitVec.ofNat 8 (((bits (8 * n) n).patch base ss v).toNat / 2 ^ (8 * k)) =
      storeAll (fun _ => BitVec.ofNat 8 (v.toNat / 2 ^ (8 * k))) ss (base + BitVec.ofNat 64 k) := by
  have hbyte := congrArg (fun bs => bs[k]?) (leBytes_patch base ss v)
  simp only [leBytes, patchBytes, List.getElem?_mapIdx, List.getElem?_map, List.getElem?_range hk,
    Option.map_some, Option.some.injEq] at hbyte
  exact hbyte

/-- A truth value as an integer of four bytes. -/
def flag : Codec Bool := (nat 4).map (fun b => b.toNat) (fun n => n != 0)

end Codec

end Dorami.Lib
