import Dorami.Lib.Hkdf
import Dorami.Sm.Hkdf

/-!
# `hkdf_sha3_512` is HKDF up to 254 blocks

The incremental functions hash what the updates have given them, one after the other, so a round of
`hkdf_expand` is one block of HKDF. The loop writes block after block and ends when its counter
passes the number of blocks. With 255 blocks it cannot: the counter is an `unsigned char`.
-/

namespace Dorami.Sm

open Riscv Lib

/-! ## Buffers -/

theorem length_bytes (p : Buffer) (n : Nat) : (p.bytes n).length = n := by
  simp [Buffer.bytes]

theorem bytes_bufferOf {xs : List Byte} {n : Nat} (h : xs.length = n) :
    (bufferOf xs).bytes n = xs := by
  refine List.ext_getElem (by rw [length_bytes, h]) fun i hi hx => ?_
  simp [Buffer.bytes, bufferOf, hx]

theorem bytes_of_nonpos (p : Buffer) {len : Int} (h : ¬ 0 < len) : p.bytes len.toNat = [] := by
  rw [Int.toNat_of_nonpos (by omega)]
  rfl

/-! ## HMAC -/

theorem sha3Update_append (c : Sha3Ctx) (xs ys : List Byte) :
    sha3Update c (xs ++ ys) = sha3Update (sha3Update c xs) ys := run_append ..

theorem prepareKey_eq (key : Buffer) (keyLen : Nat) :
    prepareKey key keyLen = sha3512.padKey (key.bytes keyLen) := by
  have hlen := length_bytes key keyLen
  unfold prepareKey
  split_ifs with hlong
  · have hblock : sha3512.blockLen < (key.bytes keyLen).length := by rwa [hlen]
    rw [HashFn.padKey_long hblock]
    rfl
  · have hblock : ¬ sha3512.blockLen < (key.bytes keyLen).length := by rwa [hlen]
    rw [HashFn.padKey_short hblock, hlen]
    rfl

/-- The context of an HMAC of `text` under `key` that is not finished. -/
structure HmacSha3Ctx.Holds (ctx : HmacSha3Ctx) (key text : List Byte) : Prop where
  padded : ctx.key = sha3512.padKey key
  absorbed : ctx.sha3Ctx = sha3Update (sha3Init SHA3_512_HASH_LEN (by decide))
    ((sha3512.padKey key).map (· ^^^ 0x36) ++ text)

theorem hmacSha3Init_holds (key : Buffer) (keyLen : Nat) :
    (hmacSha3Init key keyLen).Holds (key.bytes keyLen) [] := by
  unfold hmacSha3Init
  rw [prepareKey_eq]
  refine ⟨rfl, ?_⟩
  rw [List.append_nil]

theorem HmacSha3Ctx.Holds.update {ctx : HmacSha3Ctx} {key text : List Byte} (h : ctx.Holds key text)
    (p : Buffer) (len : Int) :
    (hmacSha3Update ctx p len).Holds key (text ++ p.bytes len.toNat) := by
  unfold hmacSha3Update
  split_ifs with hpos
  · refine ⟨h.padded, ?_⟩
    dsimp only
    rw [h.absorbed, ← sha3Update_append, List.append_assoc]
  · rw [bytes_of_nonpos p hpos, List.append_nil]
    exact h

theorem HmacSha3Ctx.Holds.updates (updates : List (Buffer × Int)) :
    ∀ {ctx : HmacSha3Ctx} {key text : List Byte}, ctx.Holds key text →
      (updates.foldl (fun ctx text => hmacSha3Update ctx text.1 text.2) ctx).Holds key
        (text ++ updatesText updates) := by
  induction updates with
  | nil =>
    intro ctx key text h
    rwa [updatesText, List.flatMap_nil, List.append_nil]
  | cons update updates ih =>
    intro ctx key text h
    have hrest := ih (h.update update.1 update.2)
    rwa [List.append_assoc] at hrest

theorem HmacSha3Ctx.Holds.final {ctx : HmacSha3Ctx} {key text : List Byte}
    (h : ctx.Holds key text) :
    hmacSha3Final ctx = sha3512.hmac key text := by
  unfold hmacSha3Final HashFn.hmac
  dsimp only
  rw [h.padded, h.absorbed, ← sha3Update_append]
  rfl

theorem hmacSha3_eq (key : Buffer) (keyLen : Nat) (text : Buffer) (textLen : Int) :
    hmacSha3 key keyLen text textLen =
      sha3512.hmac (key.bytes keyLen) (text.bytes textLen.toNat) :=
  ((hmacSha3Init_holds key keyLen).update text textLen).final

/-! ## Extract and one round of expand -/

theorem hkdfExtract_eq (salt : Option Buffer) (saltLen : Nat) (ikm : Buffer) (ikmLen : Nat) :
    hkdfExtract salt saltLen ikm ikmLen =
      sha3512.extract (salt.map (·.bytes saltLen)) (ikm.bytes ikmLen) := by
  have hnull : hmacSha3 (bufferOf (List.replicate SHA3_512_HASH_LEN 0))
      SHA3_512_HASH_LEN ikm ikmLen = sha3512.extract none (ikm.bytes ikmLen) := by
    rw [hmacSha3_eq, bytes_bufferOf List.length_replicate]
    rfl
  cases salt with
  | none => exact hnull
  | some p =>
    unfold hkdfExtract
    dsimp only [Option.map_some]
    split_ifs with hzero
    · rw [hnull, hzero]
      exact (HashFn.extract_nil _).symm
    · rw [hmacSha3_eq]
      rfl

/-- The text of the HMAC of round `i`. -/
theorem updatesText_expand (info : Buffer) (infoLen : Int) (i : Byte) {t : List Byte}
    (ht : 1 < i.toNat → t.length = SHA3_512_HASH_LEN) :
    updatesText (expandUpdates info infoLen i t) =
      (if 1 < i.toNat then t else []) ++ info.bytes infoLen.toNat ++ [i] := by
  have hlast : (bufferOf [i]).bytes (1 : Int).toNat = [i] := bytes_bufferOf rfl
  unfold updatesText expandUpdates
  rw [List.flatMap_append]
  split_ifs with hi
  · have hfirst : (bufferOf t).bytes (SHA3_512_HASH_LEN : Int).toNat = t := bytes_bufferOf (ht hi)
    simp only [List.flatMap_cons, List.flatMap_nil, List.append_nil, hfirst, hlast,
      List.append_assoc]
  · simp only [List.flatMap_cons, List.flatMap_nil, List.append_nil, List.nil_append, hlast]

theorem expandRound_eq (prk : Buffer) (prkLen : Nat) (info : Buffer) (infoLen : Int) (i : Byte)
    (t : List Byte) :
    expandRound prk prkLen info infoLen i t =
      sha3512.hmac (prk.bytes prkLen) (updatesText (expandUpdates info infoLen i t)) := by
  have h := (hmacSha3Init_holds prk prkLen).updates (expandUpdates info infoLen i t)
  rw [List.nil_append] at h
  exact h.final

/-- A round whose `t` is the block before computes the next block. -/
theorem expandRound_block (prk : Buffer) (prkLen : Nat) {info : Buffer} {infoLen : Int}
    {text : List Byte} (hinfo : info.bytes infoLen.toNat = text) {k : Nat} (hk : k < 255)
    {t : List Byte} (ht : 0 < k → t = sha3512.block (prk.bytes prkLen) text k) :
    expandRound prk prkLen info infoLen (BitVec.ofNat 8 (k + 1)) t =
      sha3512.block (prk.bytes prkLen) text (k + 1) := by
  subst hinfo
  have hi : (BitVec.ofNat 8 (k + 1)).toNat = k + 1 := by
    rw [BitVec.toNat_ofNat]
    exact Nat.mod_eq_of_lt (by omega)
  have hlen : 1 < (BitVec.ofNat 8 (k + 1)).toNat → t.length = SHA3_512_HASH_LEN := by
    intro h1
    rw [ht (by omega)]
    obtain ⟨j, rfl⟩ : ∃ j, k = j + 1 := ⟨k - 1, by omega⟩
    exact HashFn.length_hmac _ _
  have hprev : (if 1 < (BitVec.ofNat 8 (k + 1)).toNat then t else []) =
      sha3512.block (prk.bytes prkLen) (info.bytes infoLen.toNat) k := by
    split_ifs with h1
    · exact ht (by omega)
    · obtain rfl : k = 0 := by omega
      rfl
  rw [expandRound_eq, updatesText_expand info infoLen _ hlen, hprev]
  rfl

/-! ## The loop -/

theorem copyOut_append (m : Mem) (dst : Word) {xs ys : List Byte}
    (h : xs.length + ys.length < 2 ^ 64) :
    copyOut (copyOut m dst xs) (dst + BitVec.ofNat 64 xs.length) ys = copyOut m dst (xs ++ ys) := by
  funext a
  unfold copyOut
  by_cases hin : (a - dst).toNat < xs.length
  · -- the second string begins behind this address
    have hout : ys.length ≤ (a - (dst + BitVec.ofNat 64 xs.length)).toNat := by bv_omega
    rw [List.getElem?_eq_none hout, List.getElem?_append_left hin]
    rfl
  · have hoff : (a - (dst + BitVec.ofNat 64 xs.length)).toNat = (a - dst).toNat - xs.length := by
      bv_omega
    rw [hoff, List.getElem?_append_right (by omega), List.getElem?_eq_none (Nat.le_of_not_lt hin)]
    rfl

section Loop

variable (prk : Buffer) (prkLen : Nat) (text : List Byte) (okm : Word) (okmLen : Int)

/-- The blocks the loop writes. -/
abbrev keyBlocks (n : Nat) : List Byte := sha3512.blocks (prk.bytes prkLen) text n

theorem length_keyBlocks (n : Nat) : (keyBlocks prk prkLen text n).length = n * 64 :=
  HashFn.length_blocks _ _ n

/-- What round `k + 1` writes behind the first `k` blocks. -/
theorem copyOut_block {n k : Nat} (hk : k < n) (hn : n ≤ 254)
    (hlast : (n - 1 : Nat) * 64 < okmLen.toNat ∧ okmLen.toNat ≤ n * 64) (m : Mem) :
    let count := if ((k + 1 : Nat) : Int) < n then SHA3_512_HASH_LEN
      else (okmLen - (((k + 1 : Nat) : Int) - 1) * SHA3_512_HASH_LEN).toNat
    copyOut (copyOut m okm (keyBlocks prk prkLen text k))
        (okm + BitVec.ofInt 64 ((((k + 1 : Nat) : Int) - 1) * SHA3_512_HASH_LEN))
        ((sha3512.block (prk.bytes prkLen) text (k + 1)).take count) =
      copyOut m okm ((keyBlocks prk prkLen text (k + 1)).take
        (if k + 1 < n then (k + 1) * 64 else okmLen.toNat)) := by
  intro count
  have hlen := length_keyBlocks prk prkLen text k
  have hoffset : BitVec.ofInt 64 ((((k + 1 : Nat) : Int) - 1) * SHA3_512_HASH_LEN) =
      BitVec.ofNat 64 (keyBlocks prk prkLen text k).length := by
    have hint : (((k + 1 : Nat) : Int) - 1) * SHA3_512_HASH_LEN = ((k * 64 : Nat) : Int) := by
      unfold SHA3_512_HASH_LEN
      omega
    rw [hint, hlen, BitVec.ofInt_natCast]
  have hcount : count = (if k + 1 < n then (k + 1) * 64 else okmLen.toNat) - k * 64 := by
    show (if ((k + 1 : Nat) : Int) < n then SHA3_512_HASH_LEN
      else (okmLen - (((k + 1 : Nat) : Int) - 1) * SHA3_512_HASH_LEN).toNat) = _
    unfold SHA3_512_HASH_LEN
    split_ifs <;> omega
  have hbound : k * 64 ≤ (if k + 1 < n then (k + 1) * 64 else okmLen.toNat) := by
    split_ifs with hmore
    · omega
    · obtain rfl : n = k + 1 := by omega
      rw [Nat.add_sub_cancel] at hlast
      omega
  have hsize : (keyBlocks prk prkLen text k).length +
      ((sha3512.block (prk.bytes prkLen) text (k + 1)).take count).length <
        2 ^ 64 := by
    have hblock : (sha3512.block (prk.bytes prkLen) text (k + 1)).length = 64 :=
      HashFn.length_hmac _ _
    rw [hlen, List.length_take, hblock]
    omega
  have hsucc : keyBlocks prk prkLen text (k + 1) = keyBlocks prk prkLen text k ++
      sha3512.block (prk.bytes prkLen) text (k + 1) := HashFn.blocks_succ _ _ k
  have hwhole : (keyBlocks prk prkLen text k).take
      (if k + 1 < n then (k + 1) * 64 else okmLen.toNat) = keyBlocks prk prkLen text k :=
    List.take_of_length_le (by rw [hlen]; exact hbound)
  rw [hoffset, copyOut_append m okm hsize, hsucc, List.take_append, hcount, hlen, hwhole]

/-- The loop from round `k + 1` on, if every round reads the same text. The induction is on the
rounds that are left. -/
theorem hkdfExpandLoop_spec {n : Nat} (hn : n ≤ 254)
    (hlast : (n - 1 : Nat) * 64 < okmLen.toNat ∧ okmLen.toNat ≤ n * 64) (m : Mem)
    {info : Mem → Buffer} {infoLen : Int} (hinfo : ∀ k < n,
      (info (copyOut m okm (keyBlocks prk prkLen text k))).bytes infoLen.toNat = text) :
    ∀ (left k : Nat) (t : List Byte), k + left = n → 0 < left →
      (0 < k → t = sha3512.block (prk.bytes prkLen) text k) →
      hkdfExpandLoop prk prkLen info infoLen okm okmLen n (left + 1) (BitVec.ofNat 8 (k + 1)) t
          (copyOut m okm (keyBlocks prk prkLen text k)) =
        some (copyOut m okm ((keyBlocks prk prkLen text n).take okmLen.toNat)) := by
  intro left
  induction left with
  | zero => intro k t _ hpos; exact absurd hpos (Nat.lt_irrefl 0)
  | succ left ih =>
    intro k t hk _ ht
    have hi : (BitVec.ofNat 8 (k + 1)).toNat = k + 1 := by
      rw [BitVec.toNat_ofNat]
      exact Nat.mod_eq_of_lt (by omega)
    have hnext : BitVec.ofNat 8 (k + 1) + 1 = BitVec.ofNat 8 (k + 1 + 1) :=
      (BitVec.ofNat_add (k + 1) 1).symm
    have hblock := expandRound_block prk prkLen (hinfo k (by omega)) (by omega) ht
    rw [hkdfExpandLoop, hi, if_pos (by omega)]
    dsimp only
    rw [hblock, copyOut_block prk prkLen text okm okmLen (by omega) hn hlast m, hnext]
    by_cases hmore : k + 1 < n
    · have hwhole : (keyBlocks prk prkLen text (k + 1)).take ((k + 1) * 64) =
          keyBlocks prk prkLen text (k + 1) :=
        List.take_of_length_le (by rw [length_keyBlocks])
      rw [if_pos hmore, hwhole]
      exact ih (k + 1) _ (by omega) (by omega) fun _ => rfl
    · -- the counter has passed `n`
      obtain rfl : n = k + 1 := by omega
      have hstop : (BitVec.ofNat 8 (k + 1 + 1)).toNat = k + 1 + 1 := by
        rw [BitVec.toNat_ofNat]
        exact Nat.mod_eq_of_lt (by omega)
      rw [if_neg hmore, hkdfExpandLoop, hstop, if_neg (by omega)]

/-- With 255 blocks the test always succeeds: the counter is never larger. -/
theorem hkdfExpandLoop_diverges (info : Mem → Buffer) (infoLen : Int) :
    ∀ (fuel : Nat) (i : Byte) (t : List Byte) (m : Mem),
      hkdfExpandLoop prk prkLen info infoLen okm okmLen 255 fuel i t m = none := by
  intro fuel
  induction fuel with
  | zero => intro i t m; rfl
  | succ fuel ih =>
    intro i t m
    have hi := i.isLt
    rw [hkdfExpandLoop, if_pos (by omega)]
    exact ih _ _ _

end Loop

/-! ## The function -/

theorem divCeil_spec {len : Int} (h0 : 0 ≤ len) :
    ∃ n : Nat, divCeil len SHA3_512_HASH_LEN = n ∧
        len.toNat ≤ n * 64 ∧ n * 64 < len.toNat + 64 := by
  obtain ⟨k, rfl⟩ := Int.eq_ofNat_of_zero_le h0
  unfold divCeil SHA3_512_HASH_LEN
  have hmod : ((k : Int)).tmod ((64 : Nat) : Int) = ((k % 64 : Nat) : Int) := rfl
  have hdiv : ((k : Int)).tdiv ((64 : Nat) : Int) = ((k / 64 : Nat) : Int) := rfl
  rw [hmod, hdiv]
  split_ifs with hzero
  · exact ⟨k / 64, rfl, by omega, by omega⟩
  · exact ⟨k / 64 + 1, by omega, by omega, by omega⟩

section Call

variable (salt : Option Buffer) (saltLen : Nat) (ikm : Buffer) (ikmLen : Nat) (info : Mem → Buffer)
  (infoLen : Int) (okm : Word) {okmLen : Int} (m : Mem)

/-- A call within the bound is the loop under the extracted key. -/
theorem hkdfSha3512_eq (hmax : okmLen ≤ 255 * 64) (fuel : Nat) :
    hkdfSha3512 salt saltLen ikm ikmLen info infoLen okm okmLen fuel m =
      (hkdfExpandLoop (bufferOf (hkdfExtract salt saltLen ikm ikmLen)) SHA3_512_HASH_LEN
        info infoLen okm okmLen (divCeil okmLen SHA3_512_HASH_LEN) fuel 1 [] m).map
        fun m => (0, m) := by
  have hlen : ¬ 255 * (SHA3_512_HASH_LEN : Int) < okmLen := Int.not_lt.mpr hmax
  unfold hkdfSha3512 hkdfExpand
  rw [if_neg hlen, if_neg (Nat.lt_irrefl _), if_neg hlen]

theorem bytes_prk : (bufferOf (hkdfExtract salt saltLen ikm ikmLen)).bytes SHA3_512_HASH_LEN =
    sha3512.extract (salt.map (·.bytes saltLen)) (ikm.bytes ikmLen) := by
  rw [hkdfExtract_eq]
  exact bytes_bufferOf (HashFn.length_hmac _ _)

/-- Up to 254 blocks the loop ends, and the memory holds the key, if the output leaves the info
string alone. -/
theorem hkdfSha3512_ends {text : List Byte} (h0 : 0 ≤ okmLen) (hmax : okmLen ≤ 254 * 64)
    (hinfo : ∀ out : List Byte, out.length ≤ okmLen.toNat →
      (info (copyOut m okm out)).bytes infoLen.toNat = text) : ∃ fuel,
    hkdfSha3512 salt saltLen ikm ikmLen info infoLen okm okmLen fuel m =
      some (0, copyOut m okm (sha3512.hkdf (salt.map (·.bytes saltLen)) (ikm.bytes ikmLen) text
        okmLen.toNat)) := by
  obtain ⟨n, hn, hle, hlt⟩ := divCeil_spec h0
  have hn254 : n ≤ 254 := by omega
  have hkey : (keyBlocks (bufferOf (hkdfExtract salt saltLen ikm ikmLen)) SHA3_512_HASH_LEN text
      n).take okmLen.toNat = sha3512.hkdf (salt.map (·.bytes saltLen)) (ikm.bytes ikmLen) text
        okmLen.toNat := by
    unfold keyBlocks HashFn.hkdf
    rw [bytes_prk]
    exact (HashFn.take_blocks hle (by omega)).symm
  refine ⟨n + 1, ?_⟩
  rw [hkdfSha3512_eq salt saltLen ikm ikmLen info infoLen okm m (by omega), hn, ← hkey]
  rcases Nat.eq_zero_or_pos n with rfl | hpos
  · -- nothing is asked for, and the loop is not entered
    have hnone : okmLen.toNat = 0 := by omega
    have hsame : copyOut m okm [] = m := rfl
    rw [hnone, List.take_zero, hsame, hkdfExpandLoop, if_neg (by decide)]
    rfl
  · have hread : ∀ k < n, (info (copyOut m okm (keyBlocks
        (bufferOf (hkdfExtract salt saltLen ikm ikmLen)) SHA3_512_HASH_LEN text k))).bytes
          infoLen.toNat = text := by
      intro k hk
      refine hinfo _ ?_
      rw [length_keyBlocks]
      omega
    have hloop := hkdfExpandLoop_spec (bufferOf (hkdfExtract salt saltLen ikm ikmLen))
      SHA3_512_HASH_LEN text okm okmLen hn254 (by omega) m hread n 0 [] (by omega) hpos
      fun h => absurd h (Nat.lt_irrefl 0)
    have hstart : copyOut m okm (keyBlocks (bufferOf (hkdfExtract salt saltLen ikm ikmLen))
      SHA3_512_HASH_LEN text 0) = m := rfl
    rw [hstart] at hloop
    exact congrArg (Option.map fun m => ((0 : Int), m)) hloop

/-- With 255 blocks the call does not come back. -/
theorem hkdfSha3512_hangs (hmin : 254 * 64 < okmLen) (hmax : okmLen ≤ 255 * 64) (fuel : Nat) :
    hkdfSha3512 salt saltLen ikm ikmLen info infoLen okm okmLen fuel m = none := by
  have h0 : 0 ≤ okmLen := by omega
  obtain ⟨n, hn, hle, hlt⟩ := divCeil_spec h0
  obtain rfl : n = 255 := by omega
  rw [hkdfSha3512_eq salt saltLen ikm ikmLen info infoLen okm m hmax, hn]
  exact congrArg (Option.map fun m => ((0 : Int), m))
    (hkdfExpandLoop_diverges _ _ _ _ _ _ fuel 1 [] m)

end Call

theorem length_hkdf (salt : Option (List Byte)) (ikm info : List Byte) {len : Nat}
    (h : len ≤ 255 * 64) : (sha3512.hkdf salt ikm info len).length = len := by
  unfold HashFn.hkdf
  rw [List.length_take, HashFn.length_blocks]
  exact Nat.min_eq_left h

theorem implements_hkdf_iff (salt : Option Buffer) (saltLen : Nat) (ikm : Buffer) (ikmLen : Nat)
    (info : Buffer) (infoLen : Int) (okm : Word) (okmLen : Int) (m : Mem) (h0 : 0 ≤ okmLen)
    (hmax : okmLen ≤ 255 * 64) :
    ImplementsHkdf salt saltLen ikm ikmLen info infoLen okm okmLen m ↔ okmLen ≤ 254 * 64 := by
  constructor
  · rintro ⟨fuel, m', hcall, -⟩
    by_contra hlong
    rw [hkdfSha3512_hangs salt saltLen ikm ikmLen _ infoLen okm m (by omega) hmax] at hcall
    cases hcall
  · intro hshort
    obtain ⟨fuel, hcall⟩ := hkdfSha3512_ends salt saltLen ikm ikmLen (fun _ => info)
      infoLen okm m h0 hshort fun _ _ => rfl
    have hle : okmLen.toNat ≤ 255 * 64 := by omega
    have hlen := length_hkdf (salt.map (·.bytes saltLen)) (ikm.bytes ikmLen)
      (info.bytes infoLen.toNat) hle
    refine ⟨fuel, _, hcall, fun k hk => ?_, fun a ha => ?_⟩
    · have hoff : (okm + BitVec.ofNat 64 k - okm).toNat = k := by bv_omega
      unfold copyOut
      rw [hoff, List.getElem?_eq_getElem (by rw [hlen]; exact hk)]
      rfl
    · unfold copyOut
      rw [List.getElem?_eq_none (by rw [hlen]; exact ha)]
      rfl

/-- The length of a sealing key. -/
theorem sealing_key_length_implements :
    ImplementsHkdf none 0 (fun _ => 1) 64 (fun _ => 2) 64 0x90000000 128 (fun _ => 0) :=
  (implements_hkdf_iff _ _ _ _ _ _ _ _ _ (by decide) (by decide)).mpr (by decide)

/-- The longest output that the function admits: the call does not return. -/
theorem longest_output_hangs :
    (¬ ∃ fuel r, hkdfSha3512 none 0 (fun _ => 1) 64 (fun _ _ => 2) 64 0x90000000 (255 * 64) fuel
        (fun _ => 0) = some r) ∧
      ¬ ImplementsHkdf none 0 (fun _ => 1) 64 (fun _ => 2) 64 0x90000000 (255 * 64)
          (fun _ => 0) := by
  have hhangs : ∀ fuel, hkdfSha3512 none 0 (fun _ => 1) 64 (fun _ _ => 2) 64 0x90000000
      (255 * 64) fuel (fun _ => 0) = none :=
    fun fuel => hkdfSha3512_hangs _ _ _ _ _ _ _ _ (by decide) (by decide) fuel
  constructor
  · rintro ⟨fuel, r, hr⟩
    rw [hhangs fuel] at hr
    cases hr
  · rintro ⟨fuel, m', hr, -⟩
    rw [hhangs fuel] at hr
    cases hr

end Dorami.Sm
