import Dorami.Lib.Run
import Mathlib.Algebra.BigOperators.Ring.Finset
import Mathlib.Algebra.BigOperators.Intervals
import Mathlib.Data.Int.ModEq
import Mathlib.Data.List.GetD
import Mathlib.Tactic.Ring
import Mathlib.Tactic.LinearCombination

/-!
# Arithmetic on limbs

A large number is kept in signed words, its limbs, which overlap or leave gaps as needed. Programs
on limbs are straight-line: they fold a limb into others by means of a congruence, and they carry
from one limb to another. Such a program is executed on 64-bit words (`LimbOp.exec`). Two checks,
both of which can be evaluated, say that it computes what it should:

* `LimbOp.bounds` follows an interval for each limb. If no interval leaves the range of a word, then
  nothing overflows (`LimbOp.RunFits`), and the words hold the integers that the same program
  computes without any bound (`LimbOp.exact`).
* `LimbOp.Keeps` says that the number which the limbs stand for stays the same modulo some `m`.
-/

namespace Dorami.Lib

inductive LimbOp
  /-- `src * c` is added to each `dst` for the pairs `(dst, c)`, and `src` becomes 0. -/
  | fold (src : Nat) (terms : List (Nat × Int))
  /-- The part of `src` from bit `bits` on, rounded down or to the nearest, is taken away and added
  to `dst`, times `c`. -/
  | carry (src dst bits : Nat) (round : Bool) (c : Int)
deriving DecidableEq, Repr

namespace LimbOp

/-- What is added before a shift by `bits`. -/
def half (bits : Nat) (round : Bool) : Nat := if round then 2 ^ (bits - 1) else 0

/-! ## Words and integers -/

def addTerm (src : Nat) (s : List (BitVec 64)) (t : Nat × Int) : List (BitVec 64) :=
  s.set t.1 (s.getD t.1 0 + s.getD src 0 * BitVec.ofInt 64 t.2)

def exec (s : List (BitVec 64)) : LimbOp → List (BitVec 64)
  | .fold src terms => (terms.foldl (addTerm src) s).set src 0
  | .carry src dst bits round c =>
    let q := (s.getD src 0 + BitVec.ofNat 64 (half bits round)).sshiftRight bits
    (s.set dst (s.getD dst 0 + q * BitVec.ofInt 64 c)).set src (s.getD src 0 - q <<< bits)

def addTermExact (src : Nat) (s : Nat → Int) (t : Nat × Int) : Nat → Int :=
  Function.update s t.1 (s t.1 + s src * t.2)

/-- The same without overflow. -/
def exact (s : Nat → Int) : LimbOp → Nat → Int
  | .fold src terms => Function.update (terms.foldl (addTermExact src) s) src 0
  | .carry src dst bits round c =>
    let q := (s src + half bits round) / 2 ^ bits
    Function.update (Function.update s dst (s dst + q * c)) src (s src - q * 2 ^ bits)

end LimbOp

/-! ## Overflow -/

/-- The integer is in the range of a signed word. -/
def InRange (x : Int) : Prop := -2 ^ 63 ≤ x ∧ x < 2 ^ 63

namespace LimbOp

/-- No product and no sum of a fold overflows. -/
def TermsFit (src : Nat) : (s : Nat → Int) → List (Nat × Int) → Prop
  | _, [] => True
  | s, t :: ts =>
    InRange (s src * t.2) ∧ InRange (s t.1 + s src * t.2) ∧ TermsFit src (addTermExact src s t) ts

/-- Nothing that the operation computes overflows. -/
def Fits (s : Nat → Int) : LimbOp → Prop
  | .fold src terms => TermsFit src s terms
  | .carry src dst bits round c =>
    let q := (s src + half bits round) / 2 ^ bits
    InRange (s src + half bits round) ∧ InRange (q * c) ∧ InRange (s dst + q * c) ∧
      InRange (q * 2 ^ bits) ∧ InRange (s src - q * 2 ^ bits)

/-- Nothing that the program computes overflows. -/
def RunFits : (s : Nat → Int) → List LimbOp → Prop
  | _, [] => True
  | s, op :: ops => op.Fits s ∧ RunFits (exact s op) ops

theorem runFits_append {s : Nat → Int} {ops ops' : List LimbOp} (h : RunFits s ops)
    (h' : RunFits (run exact s ops) ops') : RunFits s (ops ++ ops') := by
  induction ops generalizing s with
  | nil => exact h'
  | cons op ops ih => exact ⟨h.1, ih h.2 h'⟩

end LimbOp

/-- The integers that the words hold. -/
def ints (s : List (BitVec 64)) : Nat → Int := fun i => (s.getD i 0).toInt

/-! ## Intervals -/

/-- All numbers from `lo` to `hi`. -/
abbrev Interval := Int × Int

namespace Interval

def Has (b : Interval) (x : Int) : Prop := b.1 ≤ x ∧ x ≤ b.2

/-- The interval is within the range of a signed word. -/
def fits (b : Interval) : Bool := decide (-2 ^ 63 ≤ b.1) && decide (b.2 < 2 ^ 63)

def add (a b : Interval) : Interval := (a.1 + b.1, a.2 + b.2)

def mul (a : Interval) (c : Int) : Interval :=
  if 0 ≤ c then (a.1 * c, a.2 * c) else (a.2 * c, a.1 * c)

variable {a b : Interval} {x y : Int}

theorem Has.add (hx : a.Has x) (hy : b.Has y) : (a.add b).Has (x + y) :=
  ⟨Int.add_le_add hx.1 hy.1, Int.add_le_add hx.2 hy.2⟩

theorem Has.mul (hx : a.Has x) (c : Int) : (a.mul c).Has (x * c) := by
  unfold Interval.mul
  split
  · next hc => exact ⟨Int.mul_le_mul_of_nonneg_right hx.1 hc,
      Int.mul_le_mul_of_nonneg_right hx.2 hc⟩
  · next hc =>
    have hc' : c ≤ 0 := by omega
    exact ⟨Int.mul_le_mul_of_nonpos_right hx.2 hc', Int.mul_le_mul_of_nonpos_right hx.1 hc'⟩

theorem Has.range (hx : b.Has x) (hb : b.fits = true) : InRange x := by
  unfold fits at hb
  rw [Bool.and_eq_true, decide_eq_true_eq, decide_eq_true_eq] at hb
  exact ⟨hb.1.trans hx.1, hx.2.trans_lt hb.2⟩

end Interval

/-- An integer in the range of a word is the one that its word holds. -/
theorem bmod_of_range {x : Int} (h : InRange x) : x.bmod (2 ^ 64) = x := by
  obtain ⟨hlow, hhigh⟩ := h
  exact Int.bmod_eq_of_le (by omega) (by omega)

theorem toInt_add_of_range {x y : BitVec 64} (h : InRange (x.toInt + y.toInt)) :
    (x + y).toInt = x.toInt + y.toInt := by
  rw [BitVec.toInt_add, bmod_of_range h]

theorem toInt_sub_of_range {x y : BitVec 64} (h : InRange (x.toInt - y.toInt)) :
    (x - y).toInt = x.toInt - y.toInt := by
  rw [BitVec.toInt_sub, bmod_of_range h]

theorem toInt_mul_ofInt {x : BitVec 64} {c : Int} (h : InRange (x.toInt * c)) :
    (x * BitVec.ofInt 64 c).toInt = x.toInt * c := by
  rw [BitVec.toInt_mul, BitVec.toInt_ofInt, Int.mul_bmod_bmod, bmod_of_range h]

theorem toInt_shiftLeft_of_range {x : BitVec 64} {n : Nat} (h : InRange (x.toInt * 2 ^ n)) :
    (x <<< n).toInt = x.toInt * 2 ^ n := by
  rw [BitVec.toInt_shiftLeft, Nat.shiftLeft_eq, Nat.cast_mul, ← Int.bmod_mul_bmod,
    ← BitVec.toInt_eq_toNat_bmod, Nat.cast_pow, Nat.cast_ofNat, bmod_of_range h]

theorem toInt_sshiftRight_eq_div (x : BitVec 64) (n : Nat) :
    (x.sshiftRight n).toInt = x.toInt / 2 ^ n := by
  rw [BitVec.toInt_sshiftRight, Int.shiftRight_eq_div_pow, Nat.cast_pow, Nat.cast_ofNat]

theorem ints_set {s : List (BitVec 64)} {i : Nat} (hi : i < s.length) (x : BitVec 64) :
    ints (s.set i x) = Function.update (ints s) i x.toInt := by
  funext j
  unfold ints
  by_cases hj : j = i
  · rw [hj, Function.update_self, List.getD_eq_getElem _ _ (by rwa [List.length_set]),
      List.getElem_set_self]
  · rw [Function.update_of_ne hj, List.getD_eq_getElem?_getD, List.getElem?_set_ne (Ne.symm hj),
      ← List.getD_eq_getElem?_getD]

/-! ## Following the intervals -/

/-- The interval of limb `i`; limbs that are not in the list are 0. -/
def interval (b : List Interval) (i : Nat) : Interval := b.getD i (0, 0)

def Within (s : Nat → Int) (b : List Interval) : Prop := ∀ i, (interval b i).Has (s i)

theorem Within.update {s : Nat → Int} {b : List Interval} (h : Within s b) {i : Nat}
    (hi : i < b.length) {v : Interval} {x : Int} (hx : v.Has x) :
    Within (Function.update s i x) (b.set i v) := by
  intro j
  unfold interval
  by_cases hj : j = i
  · subst hj
    rw [Function.update_self, List.getD_eq_getElem _ _ (by rwa [List.length_set]),
      List.getElem_set_self]
    exact hx
  · rw [Function.update_of_ne hj, List.getD_eq_getElem?_getD, List.getElem?_set_ne (Ne.symm hj),
      ← List.getD_eq_getElem?_getD]
    exact h j

/-- The first `n` limbs are in one interval, limb `n` is in another one, and the `k`
after it are 0. -/
def frontBounds (n : Nat) (v x : Interval) (k : Nat) : List Interval :=
  List.replicate n v ++ x :: List.replicate k (0, 0)

theorem interval_frontBounds (n : Nat) (v x : Interval) (k i : Nat) :
    interval (frontBounds n v x k) i = if i < n then v else if i = n then x else (0, 0) := by
  unfold interval frontBounds
  split
  · next hi => rw [List.getD_append _ _ _ _ (by simpa using hi), List.getD_replicate _ hi]
  · next hi =>
    rw [List.getD_append_right _ _ _ _ (by simpa using hi), List.length_replicate]
    split
    · next heq => rw [heq, Nat.sub_self, List.getD_cons_zero]
    · next hne =>
      rw [show i - n = i - n - 1 + 1 by omega, List.getD_cons_succ]
      rcases Nat.lt_or_ge (i - n - 1) k with hk | hk
      · exact List.getD_replicate _ hk
      · exact List.getD_eq_default _ _ (by simpa using hk)

theorem within_frontBounds {s : Nat → Int} {n : Nat} {v x : Interval} {k : Nat} :
    Within s (frontBounds n v x k) ↔ (∀ i < n, v.Has (s i)) ∧
        x.Has (s n) ∧ ∀ i, n < i → s i = 0 := by
  constructor
  · intro h
    refine ⟨?_, ?_, ?_⟩
    · intro i hi
      have hi' := h i
      rwa [interval_frontBounds, if_pos hi] at hi'
    · have hn := h n
      rwa [interval_frontBounds, if_neg (by omega), if_pos rfl] at hn
    · intro i hi
      have hi' := h i
      rw [interval_frontBounds, if_neg (by omega), if_neg (by omega)] at hi'
      exact Int.le_antisymm hi'.2 hi'.1
  · rintro ⟨hfront, hn, hzero⟩ i
    rw [interval_frontBounds]
    rcases Nat.lt_trichotomy i n with hi | rfl | hi
    · rw [if_pos hi]
      exact hfront i hi
    · rw [if_neg (by omega), if_pos rfl]
      exact hn
    · rw [if_neg (by omega), if_neg (by omega), hzero i hi]
      exact ⟨Int.le_refl 0, Int.le_refl 0⟩

theorem neg_pow_nonpos (n : Nat) : -2 ^ n ≤ (0 : Int) := by
  have : (0 : Int) < 2 ^ n := Int.pow_pos (by decide)
  omega

/-- The quotient and the rest of a carry. -/
theorem carry_word {x : BitVec 64} {bits r : Nat} (hbits : bits < 63) (hr : r < 2 ^ bits)
    (hlow : -2 ^ 63 ≤ x.toInt + r - 2 ^ bits) (hhigh : x.toInt + r < 2 ^ 63) :
    ((x + BitVec.ofNat 64 r).sshiftRight bits).toInt = (x.toInt + r) / 2 ^ bits ∧
      (x - (x + BitVec.ofNat 64 r).sshiftRight bits <<< bits).toInt =
        x.toInt - (x.toInt + r) / 2 ^ bits * 2 ^ bits ∧
      Interval.Has (-r, 2 ^ bits - 1 - r) (x.toInt - (x.toInt + r) / 2 ^ bits * 2 ^ bits) ∧
      InRange ((x.toInt + r) / 2 ^ bits * 2 ^ bits) ∧
      InRange (x.toInt - (x.toInt + r) / 2 ^ bits * 2 ^ bits) := by
  have hpow : (0 : Int) < 2 ^ bits := Int.pow_pos (by decide)
  have hpow63 : (2 : Int) ^ bits ≤ 2 ^ 62 := pow_le_pow_right₀ (by decide) (by omega)
  have hr' : (r : Int) < 2 ^ bits := by exact_mod_cast hr
  have hword : (BitVec.ofNat 64 r).toInt = r := by
    have hnat : (BitVec.ofNat 64 r).toNat = r := by
      rw [BitVec.toNat_ofNat]
      exact Nat.mod_eq_of_lt (by omega)
    rw [BitVec.toInt_eq_toNat_of_lt (by rw [hnat]; omega), hnat]
  have hsum : (x + BitVec.ofNat 64 r).toInt = x.toInt + r := by
    rw [toInt_add_of_range (by rw [hword]; exact ⟨by omega, hhigh⟩), hword]
  have hq : ((x + BitVec.ofNat 64 r).sshiftRight bits).toInt = (x.toInt + r) / 2 ^ bits := by
    rw [toInt_sshiftRight_eq_div, hsum]
  -- the rest is what the division leaves, less what was added
  have hdiv := Int.mul_ediv_add_emod (x.toInt + r) (2 ^ bits)
  have hmod := Int.emod_nonneg (x.toInt + r) hpow.ne'
  have hlt := Int.emod_lt_of_pos (x.toInt + r) hpow
  rw [Int.mul_comm] at hdiv
  have hprod : InRange ((x.toInt + r) / 2 ^ bits * 2 ^ bits) := ⟨by omega, by omega⟩
  have hrest : InRange (x.toInt - (x.toInt + r) / 2 ^ bits * 2 ^ bits) := ⟨by omega, by omega⟩
  have hshift : ((x + BitVec.ofNat 64 r).sshiftRight bits <<< bits).toInt =
      (x.toInt + r) / 2 ^ bits * 2 ^ bits := by
    rw [toInt_shiftLeft_of_range (by rw [hq]; exact hprod), hq]
  refine ⟨hq, ?_, ⟨by show -(r : Int) ≤ _; omega, by show _ ≤ (2 : Int) ^ bits - 1 - r; omega⟩,
    hprod, hrest⟩
  rw [toInt_sub_of_range (by rw [hshift]; exact hrest), hshift]

/-- Division of an interval. -/
theorem Interval.Has.ediv {a : Interval} {x : Int} (hx : a.Has x) (bits : Nat) :
    Interval.Has (a.1 / 2 ^ bits, a.2 / 2 ^ bits) (x / 2 ^ bits) := by
  have hpow : (0 : Int) < 2 ^ bits := Int.pow_pos (by decide)
  exact ⟨Int.ediv_le_ediv hpow hx.1, Int.ediv_le_ediv hpow hx.2⟩

namespace LimbOp

theorem half_lt {bits : Nat} (hpos : 0 < bits) (round : Bool) : half bits round < 2 ^ bits := by
  unfold half
  split
  · exact Nat.pow_lt_pow_right (by decide) (by omega)
  · exact Nat.two_pow_pos bits

def termBounds (src : Nat) (b : List Interval) (t : Nat × Int) : Option (List Interval) :=
  let p := (interval b src).mul t.2
  let v := (interval b t.1).add p
  if t.1 < b.length ∧ t.1 ≠ src ∧ p.fits ∧ v.fits then some (b.set t.1 v) else none

/-- The intervals after the operation, if nothing overflows. -/
def bounds (b : List Interval) : LimbOp → Option (List Interval)
  | .fold src terms =>
      if src < b.length then (terms.foldlM (termBounds src) b).map (·.set src (0, 0)) else none
  | .carry src dst bits round c =>
    let x := (interval b src).add (half bits round, half bits round)
    let q : Interval := (x.1 / 2 ^ bits, x.2 / 2 ^ bits)
    let p := q.mul c
    let v := (interval b dst).add p
    if src < b.length ∧ dst < b.length ∧ dst ≠ src ∧ 0 < bits ∧ bits < 63 ∧ x.fits ∧
        (x.add (-2 ^ bits, 0)).fits ∧ p.fits ∧ v.fits then
      some ((b.set dst v).set src (-half bits round, 2 ^ bits - 1 - half bits round))
    else none

/-- The words are in the intervals. -/
structure InBounds (s : List (BitVec 64)) (b : List Interval) : Prop where
  length : s.length = b.length
  within : Within (ints s) b

variable {s : List (BitVec 64)} {b b' : List Interval}

theorem termBounds_sound {src : Nat} {t : Nat × Int} (hs : InBounds s b)
    (hb : termBounds src b t = some b') :
    ints (addTerm src s t) = addTermExact src (ints s) t ∧ InBounds (addTerm src s t) b' ∧
      b'.length = b.length ∧
      InRange (ints s src * t.2) ∧ InRange (ints s t.1 + ints s src * t.2) := by
  unfold termBounds at hb
  dsimp only at hb
  split at hb
  · next h =>
    obtain ⟨hlt, -, hp, hv⟩ := h
    cases hb
    have hmul := (hs.within src).mul t.2
    have hadd := (hs.within t.1).add hmul
    have hword : (s.getD t.1 0 + s.getD src 0 * BitVec.ofInt 64 t.2).toInt =
        ints s t.1 + ints s src * t.2 := by
      have hm : (s.getD src 0 * BitVec.ofInt 64 t.2).toInt = ints s src * t.2 :=
        toInt_mul_ofInt (hmul.range hp)
      rw [toInt_add_of_range (by rw [hm]; exact hadd.range hv), hm]
      rfl
    have heq : ints (addTerm src s t) = addTermExact src (ints s) t := by
      unfold addTerm addTermExact
      rw [ints_set (by rw [hs.length]; exact hlt), hword]
    refine ⟨heq, ⟨?_, ?_⟩, List.length_set, hmul.range hp, hadd.range hv⟩
    · rw [addTerm, List.length_set, List.length_set, hs.length]
    · rw [heq]
      exact hs.within.update hlt hadd
  · cases hb

theorem terms_sound {src : Nat} {terms : List (Nat × Int)} (hs : InBounds s b)
    (hb : terms.foldlM (termBounds src) b = some b') :
    ints (terms.foldl (addTerm src) s) = terms.foldl (addTermExact src) (ints s) ∧
      InBounds (terms.foldl (addTerm src) s) b' ∧ b'.length = b.length ∧
      TermsFit src (ints s) terms := by
  induction terms generalizing s b with
  | nil =>
    cases hb
    exact ⟨rfl, hs, rfl, trivial⟩
  | cons t terms ih =>
    rw [List.foldlM_cons] at hb
    obtain ⟨b₁, hb₁, hb⟩ := Option.bind_eq_some_iff.1 hb
    obtain ⟨heq, hin, hlen, hmul, hadd⟩ := termBounds_sound hs hb₁
    rw [List.foldl_cons, List.foldl_cons, ← heq, ← hlen]
    obtain ⟨heqs, hins, hlens, hfit⟩ := ih hin hb
    rw [heq] at hfit
    exact ⟨heqs, hins, hlens, hmul, hadd, hfit⟩

/-- If the intervals stay in range, nothing overflows, and the words hold what the unbounded program
computes. -/
theorem bounds_sound {op : LimbOp} (hs : InBounds s b) (hb : op.bounds b = some b') :
    ints (exec s op) = exact (ints s) op ∧ InBounds (exec s op) b' ∧ op.Fits (ints s) := by
  cases op with
  | fold src terms =>
    dsimp only [bounds] at hb
    split at hb
    · next hsrc =>
      obtain ⟨b₁, hb₁, rfl⟩ := Option.map_eq_some_iff.1 hb
      obtain ⟨heq, hin, hlen, hfit⟩ := terms_sound hs hb₁
      have hsrc' : src < b₁.length := by rw [hlen]; exact hsrc
      have hexec : ints (exec s (.fold src terms)) = exact (ints s) (.fold src terms) := by
        dsimp only [exec, exact]
        rw [ints_set (by rw [hin.length]; exact hsrc'), heq]
        rfl
      refine ⟨hexec, ⟨?_, ?_⟩, hfit⟩
      · rw [exec, List.length_set, List.length_set, hin.length]
      · rw [hexec]
        dsimp only [exact]
        rw [← heq]
        exact hin.within.update hsrc' ⟨Int.le_refl 0, Int.le_refl 0⟩
    · cases hb
  | carry src dst bits round c =>
    dsimp only [bounds] at hb
    split at hb
    · next h =>
      obtain ⟨hsrc, hdst, -, hpos, hbits, hx, hxq, hp, hv⟩ := h
      cases hb
      have hr := half_lt hpos round
      have hsum := (hs.within src).add (b := (↑(half bits round), ↑(half bits round)))
        ⟨Int.le_refl (half bits round), Int.le_refl _⟩
      have hlow : -2 ^ 63 ≤ ints s src + half bits round - 2 ^ bits := by
        have := (hsum.add (b := (-2 ^ bits, 0)) ⟨Int.le_refl (-2 ^ bits),
          neg_pow_nonpos bits⟩).range hxq
        exact this.1
      obtain ⟨hq, hrest, hhas, hprod, hdiff⟩ := carry_word hbits hr hlow (hsum.range hx).2
      have hmul := (hsum.ediv bits).mul c
      have hadd := (hs.within dst).add hmul
      have hqc := toInt_mul_ofInt (c := c) (by rw [hq]; exact hmul.range hp)
      rw [hq] at hqc
      have hdsts := toInt_add_of_range (x := s.getD dst 0) (by rw [hqc]; exact hadd.range hv)
      rw [hqc] at hdsts
      have hexec : ints (exec s (.carry src dst bits round c)) =
          exact (ints s) (.carry src dst bits round c) := by
        dsimp only [exec, exact]
        rw [ints_set (by rw [List.length_set, hs.length]; exact hsrc),
          ints_set (by rw [hs.length]; exact hdst), hdsts, hrest]
        rfl
      refine ⟨hexec, ⟨?_, ?_⟩, hsum.range hx, hmul.range hp, hadd.range hv, hprod, hdiff⟩
      · rw [exec, List.length_set, List.length_set, List.length_set, List.length_set, hs.length]
      · rw [hexec]
        exact (hs.within.update hdst hadd).update (by rwa [List.length_set]) hhas
    · cases hb

/-- The same for a whole program. -/
theorem bounds_run {ops : List LimbOp} (hs : InBounds s b) (hb : ops.foldlM bounds b = some b') :
    ints (run exec s ops) = run exact (ints s) ops ∧ InBounds (run exec s ops) b' ∧
      RunFits (ints s) ops := by
  induction ops generalizing s b with
  | nil =>
    cases hb
    exact ⟨rfl, hs, trivial⟩
  | cons op ops ih =>
    rw [List.foldlM_cons] at hb
    obtain ⟨b₁, hb₁, hb⟩ := Option.bind_eq_some_iff.1 hb
    obtain ⟨heq, hin, hfit⟩ := bounds_sound hs hb₁
    obtain ⟨heqs, hins, hfits⟩ := ih hin hb
    rw [run_cons, run_cons, ← heq]
    rw [heq] at hfits
    exact ⟨heqs, hins, hfit, hfits⟩

end LimbOp

/-! ## The number the limbs stand for -/

/-- The first `n` limbs, limb `i` of which counts from bit `w i` on. -/
def limbsValue (w : Nat → Nat) (n : Nat) (s : Nat → Int) : Int :=
  ∑ i ∈ Finset.range n, s i * 2 ^ w i

theorem limbsValue_update {w : Nat → Nat} {n i : Nat} (hi : i < n) (s : Nat → Int) (x : Int) :
    limbsValue w n (Function.update s i x) = limbsValue w n s + (x - s i) * 2 ^ w i := by
  have hmem : i ∈ Finset.range n := Finset.mem_range.2 hi
  have hrest : ∀ j ∈ (Finset.range n).erase i, Function.update s i x j * 2 ^ w j =
      s j * 2 ^ w j := by
    intro j hj
    rw [Function.update_of_ne (Finset.ne_of_mem_erase hj)]
  unfold limbsValue
  rw [← Finset.add_sum_erase _ _ hmem, Finset.sum_congr rfl hrest, Function.update_self,
    ← Finset.add_sum_erase _ (fun j => s j * 2 ^ w j) hmem]
  ring

namespace LimbOp

/-- What the terms of a fold put in the place of the limb. -/
def weight (w : Nat → Nat) (terms : List (Nat × Int)) : Int :=
  (terms.map fun t => t.2 * 2 ^ w t.1).sum

/-- The operation does not change the number modulo `m`. -/
def Keeps (m : Int) (w : Nat → Nat) (n : Nat) : LimbOp → Prop
  | .fold src terms => src < n ∧ (∀ t ∈ terms, t.1 < n ∧ t.1 ≠ src) ∧ m ∣ weight w terms - 2 ^ w src
  | .carry src dst bits _ c => src < n ∧ dst < n ∧ dst ≠ src ∧
      m ∣ c * 2 ^ w dst - 2 ^ (bits + w src)

instance (m : Int) (w : Nat → Nat) (n : Nat) : (op : LimbOp) → Decidable (op.Keeps m w n)
  | .fold _ _ => inferInstanceAs (Decidable (_ ∧ _ ∧ _))
  | .carry _ _ _ _ _ => inferInstanceAs (Decidable (_ ∧ _ ∧ _ ∧ _))

variable {w : Nat → Nat} {n : Nat}

theorem value_terms {src : Nat} {terms : List (Nat × Int)} (h : ∀ t ∈ terms, t.1 < n ∧ t.1 ≠ src)
    (s : Nat → Int) : (terms.foldl (addTermExact src) s) src = s src ∧
      limbsValue w n (terms.foldl (addTermExact src) s) =
          limbsValue w n s + s src * weight w terms := by
  induction terms generalizing s with
  | nil => exact ⟨rfl, by simp [weight]⟩
  | cons t terms ih =>
    obtain ⟨hlt, hne⟩ := h t List.mem_cons_self
    have hsrc : addTermExact src s t src = s src := Function.update_of_ne hne.symm _ _
    obtain ⟨h₁, h₂⟩ := ih (fun t' ht' => h t' (List.mem_cons_of_mem _ ht')) (addTermExact src s t)
    rw [hsrc] at h₁ h₂
    refine ⟨h₁, ?_⟩
    rw [List.foldl_cons, h₂, addTermExact, limbsValue_update hlt, weight, weight, List.map_cons,
      List.sum_cons]
    ring

/-- A fold replaces `2 ^ w src` by its weight, as often as the limb says. -/
theorem value_fold {src : Nat} {terms : List (Nat × Int)} (hsrc : src < n)
    (h : ∀ t ∈ terms, t.1 < n ∧ t.1 ≠ src) (s : Nat → Int) :
    limbsValue w n (exact s (.fold src terms)) =
      limbsValue w n s + s src * (weight w terms - 2 ^ w src) := by
  obtain ⟨h₁, h₂⟩ := value_terms (w := w) h s
  dsimp only [exact]
  rw [limbsValue_update hsrc, h₁, h₂]
  ring

theorem value_carry {src dst bits : Nat} {round : Bool} {c : Int} (hsrc : src < n) (hdst : dst < n)
    (hne : dst ≠ src) (s : Nat → Int) :
    limbsValue w n (exact s (.carry src dst bits round c)) =
      limbsValue w n s +
        (s src + half bits round) / 2 ^ bits * (c * 2 ^ w dst - 2 ^ (bits + w src)) := by
  dsimp only [exact]
  rw [limbsValue_update hsrc, Function.update_of_ne hne.symm, limbsValue_update hdst, pow_add]
  ring

theorem value_modEq {m : Int} {op : LimbOp} (h : op.Keeps m w n) (s : Nat → Int) :
    limbsValue w n (exact s op) ≡ limbsValue w n s [ZMOD m] := by
  cases op with
  | fold src terms =>
    obtain ⟨hsrc, hterms, k, hk⟩ := h
    rw [value_fold hsrc hterms, hk]
    exact Int.modEq_iff_dvd.2 ⟨-(s src * k), by ring⟩
  | carry src dst bits round c =>
    obtain ⟨hsrc, hdst, hne, k, hk⟩ := h
    rw [value_carry hsrc hdst hne, hk]
    exact Int.modEq_iff_dvd.2 ⟨-((s src + half bits round) / 2 ^ bits * k), by ring⟩

theorem value_run {m : Int} {ops : List LimbOp} (h : ∀ op ∈ ops, op.Keeps m w n) (s : Nat → Int) :
    limbsValue w n (run exact s ops) ≡ limbsValue w n s [ZMOD m] := by
  induction ops generalizing s with
  | nil => exact Int.ModEq.refl _
  | cons op ops ih =>
    rw [run_cons]
    exact (ih (fun op' h' => h op' (List.mem_cons_of_mem _ h')) _).trans
      (value_modEq (h op List.mem_cons_self) s)

end LimbOp

/-- A program whose checks have been made: from limbs in the intervals `start` it gets to limbs in
the intervals `finish`, and it does not change the number modulo `m`. -/
structure LimbProgram (m : Int) (w : Nat → Nat) (n : Nat) (start finish : List Interval) where
  ops : List LimbOp
  bounds : ops.foldlM LimbOp.bounds start = some finish
  keeps : ∀ op ∈ ops, op.Keeps m w n

theorem LimbProgram.sound {m : Int} {w : Nat → Nat} {n : Nat} {start finish : List Interval}
    (P : LimbProgram m w n start finish) {s : List (BitVec 64)} (hs : LimbOp.InBounds s start) :
    LimbOp.InBounds (run LimbOp.exec s P.ops) finish ∧
      limbsValue w n (ints (run LimbOp.exec s P.ops)) ≡ limbsValue w n (ints s) [ZMOD m] := by
  obtain ⟨heq, hin, -⟩ := LimbOp.bounds_run hs P.bounds
  refine ⟨hin, ?_⟩
  rw [heq]
  exact LimbOp.value_run P.keeps (ints s)

/-- Nothing overflows in one program after the other. -/
theorem LimbProgram.fits {m m' : Int} {w w' : Nat → Nat} {n n' : Nat}
    {start mid finish : List Interval} (P : LimbProgram m w n start mid)
    (Q : LimbProgram m' w' n' mid finish) {s : List (BitVec 64)} (hs : LimbOp.InBounds s start) :
    LimbOp.RunFits (ints s) (P.ops ++ Q.ops) := by
  obtain ⟨heq, hin, hfit⟩ := LimbOp.bounds_run hs P.bounds
  obtain ⟨-, -, hfit'⟩ := LimbOp.bounds_run hin Q.bounds
  rw [heq] at hfit'
  exact LimbOp.runFits_append hfit hfit'

end Dorami.Lib
