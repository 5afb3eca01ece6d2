import Dorami.Sbi.Locks
import Mathlib.Data.Fintype.Card

/-!
# The spin lock is first come, first served

The code is a refinement of the lock with an explicit queue (`Fifo`): the harts in the queue have
the tickets from `owner` on, in order, so that there are `next - owner` of them. The counters have
16 bits, and the argument needs that there are no more harts than tickets.
-/

namespace Dorami.Sbi

open Riscv Lib

/-! ## The two halves of the word -/

namespace Spinlock
variable (l : Spinlock)

theorem inc_eq : (ticketInc.setWidth 32 : Spinlock) = 0x10000#32 := by decide

theorem owner_toNat : l.owner.toNat = l.toNat % 2 ^ 16 := by
  rw [owner, BitVec.extractLsb'_toNat, Nat.shiftRight_zero]

theorem next_toNat : l.next.toNat = l.toNat / 2 ^ 16 := by
  have := l.isLt
  rw [next, BitVec.extractLsb'_toNat, Nat.shiftRight_eq_div_pow]
  omega

theorem owner_add_inc : (l + ticketInc.setWidth 32).owner = l.owner := by
  apply BitVec.eq_of_toNat_eq
  rw [owner_toNat, owner_toNat, inc_eq, BitVec.toNat_add, BitVec.toNat_ofNat]
  omega

theorem next_add_inc : (l + ticketInc.setWidth 32).next = l.next + 1#16 := by
  have := l.isLt
  apply BitVec.eq_of_toNat_eq
  rw [inc_eq, next_toNat, BitVec.toNat_add, BitVec.toNat_add l.next, next_toNat, BitVec.toNat_ofNat,
    BitVec.toNat_ofNat]
  omega

theorem setOwner_toNat (v : BitVec 16) :
    (l.setOwner v).toNat = l.toNat / 2 ^ 16 * 2 ^ 16 + v.toNat := by
  have h : (l.setOwner v).toNat = (l.next ++ v).toNat := rfl
  have := v.isLt
  rw [h, BitVec.toNat_append, Nat.shiftLeft_eq, next_toNat]
  rw [← Nat.shiftLeft_eq, Nat.shiftLeft_add_eq_or_of_lt this]

theorem owner_setOwner (v : BitVec 16) : (l.setOwner v).owner = v := by
  have := v.isLt
  apply BitVec.eq_of_toNat_eq
  rw [owner_toNat, setOwner_toNat]
  omega

theorem next_setOwner (v : BitVec 16) : (l.setOwner v).next = l.next := by
  have := v.isLt
  apply BitVec.eq_of_toNat_eq
  rw [next_toNat, setOwner_toNat, next_toNat]
  omega

theorem loaded_getLsbD {i : Nat} (hi : i < 32) : l.loaded.getLsbD i = l.getLsbD i := by
  rw [loaded, BitVec.getLsbD_signExtend, if_pos hi]
  simp
  omega

theorem lockMask_getLsbD {i : Nat} (hi : i < 64) : lockMask.getLsbD i = decide (i < 16) := by
  revert i
  decide

theorem trylockMask_getLsbD {i : Nat} (hi : i < 64) :
    trylockMask.getLsbD i = (decide (16 ≤ i) && decide (i < 32)) := by
  revert i
  decide

theorem loaded_and_mask : l.loaded &&& lockMask = l.owner.setWidth 64 := by
  apply BitVec.eq_of_getLsbD_eq
  intro i hi
  rw [BitVec.getLsbD_and, lockMask_getLsbD hi, BitVec.getLsbD_setWidth, owner,
    BitVec.getLsbD_extractLsb']
  by_cases h16 : i < 16
  · rw [loaded_getLsbD l (show i < 32 by omega)]
    simp [h16, hi]
  · simp [h16]

theorem loaded_shift_and_mask : (l.loaded >>> TICKET_SHIFT) &&& lockMask = l.next.setWidth 64 := by
  apply BitVec.eq_of_getLsbD_eq
  intro i hi
  rw [BitVec.getLsbD_and, lockMask_getLsbD hi, BitVec.getLsbD_setWidth, next,
    BitVec.getLsbD_extractLsb', BitVec.getLsbD_ushiftRight]
  by_cases h16 : i < 16
  · rw [TICKET_SHIFT, loaded_getLsbD l (show 16 + i < 32 by omega)]
    simp [h16, hi]
  · simp [h16]

theorem trylock_test :
    l.loaded &&& trylockMask = (l.loaded <<< TICKET_SHIFT) &&& trylockMask ↔ l.owner = l.next := by
  have hbit : ∀ i < 16,
      (l.owner.getLsbD i = l.getLsbD i ∧ l.next.getLsbD i = l.getLsbD (16 + i)) := by
    intro i hi
    simp [owner, next, hi]
  constructor
  · intro h
    apply BitVec.eq_of_getLsbD_eq
    intro i hi
    have hb := congrArg (BitVec.getLsbD · (16 + i)) h
    simp only [BitVec.getLsbD_and, trylockMask_getLsbD (show 16 + i < 64 by omega),
      BitVec.getLsbD_shiftLeft, TICKET_SHIFT, Nat.add_sub_cancel_left,
      loaded_getLsbD l (show 16 + i < 32 by omega), loaded_getLsbD l (show i < 32 by omega)] at hb
    rw [(hbit i hi).1, (hbit i hi).2]
    have h1 : decide (16 + i < 64) = true := decide_eq_true (by omega)
    have h2 : decide (16 + i < 32) = true := decide_eq_true (by omega)
    have h3 : decide (16 + i < 16) = false := decide_eq_false (by omega)
    have h4 : decide (16 ≤ 16 + i) = true := decide_eq_true (by omega)
    rw [h1, h2, h3, h4] at hb
    simpa using hb.symm
  · intro h
    apply BitVec.eq_of_getLsbD_eq
    intro i hi
    simp only [BitVec.getLsbD_and, trylockMask_getLsbD hi, BitVec.getLsbD_shiftLeft, TICKET_SHIFT]
    by_cases hin : 16 ≤ i ∧ i < 32
    · have h1 := (hbit (i - 16) (by omega)).1
      have h2 := (hbit (i - 16) (by omega)).2
      rw [h, h2, show 16 + (i - 16) = i by omega] at h1
      rw [loaded_getLsbD l hin.2, loaded_getLsbD l (show i - 16 < 32 by omega), h1]
      simp [hi, hin.1, hin.2]
    · have : (decide (16 ≤ i) && decide (i < 32)) = false := by simpa using hin
      simp [this]

theorem sc_value : (l.loaded + ticketInc).setWidth 32 = l + ticketInc.setWidth 32 := by
  rw [BitVec.setWidth_add _ _ (by omega)]
  congr 1
  apply BitVec.eq_of_getLsbD_eq
  intro i hi
  rw [BitVec.getLsbD_setWidth, loaded_getLsbD l hi]
  simp [hi]
end Spinlock

/-! ## The refinement -/

section Refinement

variable {H δ : Type*}

/-- A hart that spins for the lock with `k` harts before it, and its section. -/
def WaitsAt (owner : BitVec 16) (k : Nat) (steps : List (δ → δ)) : LockPc δ → Prop
  | .compare l0 tmp1 st =>
    st = steps ∧ tmp1 = (owner + BitVec.ofNat 16 k).setWidth 64 ∧ (tmp1 = l0 &&& lockMask → k = 0)
  | .reload tmp1 st => st = steps ∧ tmp1 = (owner + BitVec.ofNat 16 k).setWidth 64
  | _ => False

/-- A hart without a ticket. -/
def Away : LockPc δ → Prop
  | .idle | .amoadd _ | .lr _ | .sc _ _ => True
  | _ => False

/-- The lock with its queue, and the word and the harts that stand for it. -/
structure Refines (s : Locking H δ) (a : Fifo H δ) : Prop where
  data : a.data = s.data
  taken : a.taken = s.taken
  entered : a.entered = s.entered
  nodup : a.parties.Nodup
  next : s.lock.next = s.lock.owner + BitVec.ofNat 16 a.parties.length
  waiting : ∀ i h steps, a.waiting[i]? = some (h, steps) →
    WaitsAt s.lock.owner (a.inside.toList.length + i) steps (s.pc h)
  inside : ∀ h steps, a.inside = some (h, steps) →
    s.pc h = .inside steps ∨ (steps = [] ∧ s.pc h = .unlock (s.lock.owner + 1))
  away : ∀ h, h ∉ a.parties → Away (s.pc h)
  reserved : ∀ h l0 steps, s.pc h = .sc l0 steps → s.reserved h = true →
    l0 = s.lock.loaded ∧ s.lock.owner = s.lock.next

variable {s : Locking H δ} {a : Fifo H δ} {h : H}

theorem refines_init (d : δ) : Refines (Locking.init d : Locking H δ) (Fifo.start d) := by
  have hnext : Spinlock.next 0 = Spinlock.owner 0 + BitVec.ofNat 16 0 := by decide
  refine ⟨rfl, rfl, rfl, List.nodup_nil, hnext, fun i h steps hi => ?_, fun h steps hi => ?_,
    fun h _ => trivial, fun h l0 steps hpc => ?_⟩
  · cases hi
  · cases hi
  · cases hpc

/-! ### Where a hart is in the queue -/

theorem mem_parties_cases (hmem : h ∈ a.parties) :
    (∃ steps, a.inside = some (h, steps)) ∨
      ∃ (i : Nat) (steps : List (δ → δ)), a.waiting[i]? = some (h, steps) := by
  unfold Fifo.parties at hmem
  rw [List.map_append, List.mem_append] at hmem
  rcases hmem with hin | hwait
  · obtain ⟨⟨_, steps⟩, hp, rfl⟩ := List.mem_map.mp hin
    exact Or.inl ⟨steps, Option.mem_toList.mp hp⟩
  · obtain ⟨⟨_, steps⟩, hp, rfl⟩ := List.mem_map.mp hwait
    obtain ⟨i, hi⟩ := List.mem_iff_getElem?.mp hp
    exact Or.inr ⟨i, steps, hi⟩

theorem inside_mem_parties {steps : List (δ → δ)} (hin : a.inside = some (h, steps)) :
    h ∈ a.parties := by
  unfold Fifo.parties
  rw [hin]
  exact List.mem_cons_self ..

theorem waiting_mem_parties {i : Nat} {steps : List (δ → δ)}
    (hi : a.waiting[i]? = some (h, steps)) : h ∈ a.parties := by
  unfold Fifo.parties
  rw [List.map_append, List.mem_append]
  exact Or.inr (List.mem_map.mpr ⟨_, List.mem_of_getElem? hi, rfl⟩)

theorem Refines.notMem (hr : Refines s a) (haway : Away (s.pc h)) : h ∉ a.parties := by
  intro hmem
  rcases mem_parties_cases hmem with ⟨steps, hin⟩ | ⟨i, steps, hi⟩
  · rcases hr.inside h steps hin with hpc | ⟨_, hpc⟩
    · rw [hpc] at haway
      exact haway
    · rw [hpc] at haway
      exact haway
  · have hw := hr.waiting i h steps hi
    cases hpc : s.pc h <;> rw [hpc] at hw haway <;> first | exact hw | exact haway

theorem Refines.holder (hr : Refines s a) (hpc : s.Holds h) :
    ∃ steps, a.inside = some (h, steps) := by
  have hmem : h ∈ a.parties := by
    by_contra hnot
    have haway := hr.away h hnot
    rcases hpc with ⟨st, hpc⟩ | ⟨v, hpc⟩
    · rw [hpc] at haway
      exact haway
    · rw [hpc] at haway
      exact haway
  rcases mem_parties_cases hmem with hin | ⟨i, steps, hi⟩
  · exact hin
  · have hw := hr.waiting i h steps hi
    rcases hpc with ⟨st, hpc⟩ | ⟨v, hpc⟩
    · rw [hpc] at hw
      exact hw.elim
    · rw [hpc] at hw
      exact hw.elim

theorem Refines.spinner (hr : Refines s a) (hpc : s.Spins h) :
    ∃ (i : Nat) (steps : List (δ → δ)), a.waiting[i]? = some (h, steps) := by
  have hmem : h ∈ a.parties := by
    by_contra hnot
    have haway := hr.away h hnot
    rcases hpc with ⟨l0, tmp1, st, hpc⟩ | ⟨tmp1, st, hpc⟩
    · rw [hpc] at haway
      exact haway
    · rw [hpc] at haway
      exact haway
  rcases mem_parties_cases hmem with ⟨steps, hin⟩ | hwait
  · rcases hr.inside h steps hin with h1 | ⟨_, h1⟩ <;>
      rcases hpc with ⟨l0, tmp1, st, hpc⟩ | ⟨tmp1, st, hpc⟩ <;> rw [hpc] at h1 <;> cases h1
  · exact hwait

/-! ### Counting tickets -/

theorem ofNat_eq_zero {k : Nat} (hk : k < 2 ^ 16) (h0 : BitVec.ofNat 16 k = 0#16) : k = 0 := by
  have := congrArg BitVec.toNat h0
  rw [BitVec.toNat_ofNat, BitVec.toNat_ofNat, Nat.mod_eq_of_lt hk] at this
  exact this

theorem eq_zero_of_add {owner v : BitVec 16} (h : owner + v = owner) : v = 0#16 := by bv_omega

/-- A ticket that is being served is the first one. -/
theorem first_of_served {owner : BitVec 16} {k : Nat} (hk : k < 2 ^ 16)
    (heq : (owner + BitVec.ofNat 16 k).setWidth 64 = owner.setWidth 64) : k = 0 := by
  have h16 : owner + BitVec.ofNat 16 k = owner := by
    have := congrArg (BitVec.setWidth 16) heq
    rwa [BitVec.setWidth_setWidth_of_le _ (by omega), BitVec.setWidth_setWidth_of_le _ (by omega),
      BitVec.setWidth_eq, BitVec.setWidth_eq] at this
  exact ofNat_eq_zero hk (eq_zero_of_add h16)

section Counting

variable [Fintype H]

theorem Refines.length_le (hr : Refines s a) (hH : Fintype.card H ≤ 2 ^ 16) :
    a.parties.length ≤ 2 ^ 16 := hr.nodup.length_le_card.trans hH

theorem Refines.place_lt (hr : Refines s a) (hH : Fintype.card H ≤ 2 ^ 16) {i : Nat}
    {p : H × List (δ → δ)} (hi : a.waiting[i]? = some p) : a.inside.toList.length + i < 2 ^ 16 := by
  have hlt := (List.getElem?_eq_some_iff.mp hi).1
  have hle := hr.length_le hH
  unfold Fifo.parties at hle
  rw [List.length_map, List.length_append] at hle
  omega

/-- A hart that is not in the queue leaves a ticket for itself. -/
theorem Refines.length_lt (hr : Refines s a) (hH : Fintype.card H ≤ 2 ^ 16) (hnot : h ∉ a.parties) :
    a.parties.length < 2 ^ 16 := by
  have hcons : (h :: a.parties).Nodup := List.nodup_cons.mpr ⟨hnot, hr.nodup⟩
  exact Nat.lt_of_succ_le (hcons.length_le_card.trans hH)

/-- The lock looks free to a hart that is not in the queue exactly if nobody is. -/
theorem Refines.free (hr : Refines s a) (hH : Fintype.card H ≤ 2 ^ 16) (hnot : h ∉ a.parties)
    (heq : s.lock.owner = s.lock.next) : a.parties = [] := by
  have hnext := hr.next
  rw [← heq] at hnext
  exact List.length_eq_zero_iff.mp
    (ofNat_eq_zero (hr.length_lt hH hnot) (eq_zero_of_add hnext.symm))

end Counting

/-! ### One instruction -/

section Step

variable [DecidableEq H]

/-- A hart without a ticket goes on to another place where it needs none. -/
theorem Refines.moveAway (hr : Refines s a) (hnot : h ∉ a.parties) (pc : LockPc δ) (hpc : Away pc)
    {reserved : H → Bool} (hres : ∀ g, g ≠ h → reserved g = true → s.reserved g = true)
    (hsc : ∀ l0 steps, pc = .sc l0 steps → reserved h = true →
      l0 = s.lock.loaded ∧ s.lock.owner = s.lock.next) :
    Refines ({ s with reserved := reserved }.setPc h pc) a := by
  have hne : ∀ g ∈ a.parties, g ≠ h := fun g hg heq => hnot (heq ▸ hg)
  refine ⟨hr.data, hr.taken, hr.entered, hr.nodup, hr.next, fun i g steps hi => ?_,
    fun g steps hin => ?_, fun g hg => ?_, fun g l0 steps hg hres' => ?_⟩
  · show WaitsAt s.lock.owner _ steps (Function.update s.pc h pc g)
    rw [Function.update_of_ne (hne g (waiting_mem_parties hi))]
    exact hr.waiting i g steps hi
  · show Function.update s.pc h pc g = _ ∨ _ ∧ Function.update s.pc h pc g = _
    rw [Function.update_of_ne (hne g (inside_mem_parties hin))]
    exact hr.inside g steps hin
  · show Away (Function.update s.pc h pc g)
    by_cases hgh : g = h
    · rw [hgh, Function.update_self]
      exact hpc
    · rw [Function.update_of_ne hgh]
      exact hr.away g hg
  · have hg : Function.update s.pc h pc g = .sc l0 steps := hg
    by_cases hgh : g = h
    · rw [hgh, Function.update_self] at hg
      exact hsc l0 steps hg (hgh ▸ hres')
    · rw [Function.update_of_ne hgh] at hg
      exact hr.reserved g l0 steps hg (hres g hgh hres')

/-- A hart in the queue goes on, and the queue stays the same. -/
theorem Refines.moveQueued (hr : Refines s a) (hmem : h ∈ a.parties) {pc : LockPc δ} {b : Fifo H δ}
    {data : δ} {entered : List (H × List (δ → δ))} (hparties : b.parties = a.parties)
    (hdata : b.data = data) (htaken : b.taken = a.taken) (hentered : b.entered = entered)
    (hnsc : ∀ l0 steps, pc ≠ .sc l0 steps)
    (hwait : ∀ i g steps, b.waiting[i]? = some (g, steps) →
      WaitsAt s.lock.owner (b.inside.toList.length + i) steps (Function.update s.pc h pc g))
    (hin : ∀ g steps, b.inside = some (g, steps) → Function.update s.pc h pc g = .inside steps ∨
      (steps = [] ∧ Function.update s.pc h pc g = .unlock (s.lock.owner + 1))) :
    Refines { s.setPc h pc with data := data, entered := entered } b := by
  refine ⟨hdata, htaken.trans hr.taken, hentered, hparties ▸ hr.nodup, hparties ▸ hr.next, hwait,
    hin, fun g hg => ?_, fun g l0 steps hg hres => ?_⟩
  · rw [hparties] at hg
    have hgh : g ≠ h := fun heq => hg (heq ▸ hmem)
    show Away (Function.update s.pc h pc g)
    rw [Function.update_of_ne hgh]
    exact hr.away g hg
  · have hg : Function.update s.pc h pc g = .sc l0 steps := hg
    by_cases hgh : g = h
    · rw [hgh, Function.update_self] at hg
      exact absurd hg (hnsc l0 steps)
    · rw [Function.update_of_ne hgh] at hg
      exact hr.reserved g l0 steps hg hres

omit [DecidableEq H] in
theorem ne_of_getElem? {i j : Nat} {g : H} {st st' : List (δ → δ)} (hr : Refines s a)
    (hi : a.waiting[i]? = some (h, st)) (hj : a.waiting[j]? = some (g, st')) (hij : i ≠ j) :
    g ≠ h := by
  rintro rfl
  have hnd : (a.waiting.map Prod.fst).Nodup := by
    have := hr.nodup
    unfold Fifo.parties at this
    rw [List.map_append] at this
    exact this.of_append_right
  have h1 : (a.waiting.map Prod.fst)[i]? = some g := by rw [List.getElem?_map, hi]; rfl
  have h2 : (a.waiting.map Prod.fst)[j]? = some g := by rw [List.getElem?_map, hj]; rfl
  exact hij ((List.getElem?_inj (List.getElem?_eq_some_iff.mp h1).1 hnd).mp (h1.trans h2.symm))

omit [DecidableEq H] in
theorem ne_of_inside {i : Nat} {g : H} {st st' : List (δ → δ)} (hr : Refines s a)
    (hi : a.waiting[i]? = some (h, st)) (hin : a.inside = some (g, st')) : g ≠ h := by
  rintro rfl
  have hnd := hr.nodup
  unfold Fifo.parties at hnd
  rw [hin] at hnd
  have hmem : g ∈ a.waiting.map Prod.fst := List.mem_map.mpr ⟨_, List.mem_of_getElem? hi, rfl⟩
  exact (List.nodup_cons.mp hnd).1 hmem

/-- The hart moves on within the loop of `spin_lock`. -/
theorem Refines.spinOn (hr : Refines s a) {i : Nat} {steps : List (δ → δ)}
    (hi : a.waiting[i]? = some (h, steps)) {pc : LockPc δ}
    (hpc : WaitsAt s.lock.owner (a.inside.toList.length + i) steps pc) :
    Refines (s.setPc h pc) a := by
  refine hr.moveQueued (waiting_mem_parties hi) rfl hr.data rfl hr.entered (fun l0 st heq => ?_)
    (fun j g st hj => ?_) (fun g st hg => ?_)
  · rw [heq] at hpc
    exact hpc
  · by_cases hij : i = j
    · subst hij
      rw [hi] at hj
      obtain ⟨rfl, rfl⟩ := Prod.mk.injEq .. ▸ Option.some.inj hj
      rw [Function.update_self]
      exact hpc
    · rw [Function.update_of_ne (ne_of_getElem? hr hi hj hij)]
      exact hr.waiting j g st hj
  · rw [Function.update_of_ne (ne_of_inside hr hi hg)]
    exact hr.inside g st hg

/-- The first of the queue goes in. -/
theorem Refines.goIn (hr : Refines s a) {steps : List (δ → δ)} (hfree : a.inside = none)
    (hi : a.waiting[0]? = some (h, steps)) :
    ∃ b, Fifo.Step a b ∧ Refines (s.enter h steps) b := by
  cases hw : a.waiting with
  | nil => rw [hw] at hi; cases hi
  | cons p rest =>
    have hp : p = (h, steps) := by
      rw [hw] at hi
      exact Option.some.inj hi
    subst hp
    refine ⟨_, .enter hfree hw, ?_⟩
    refine hr.moveQueued (waiting_mem_parties hi) ?_ hr.data rfl
      (congrArg (· ++ [(h, steps)]) hr.entered) (fun l0 st heq => ?_) (fun j g st hj => ?_)
      (fun g st hg => ?_)
    · unfold Fifo.parties
      rw [hw, hfree]
      rfl
    · cases heq
    · have hj' : a.waiting[j + 1]? = some (g, st) := by rw [hw]; exact hj
      rw [Function.update_of_ne (ne_of_getElem? hr hi hj' (by omega))]
      have hwait := hr.waiting (j + 1) g st hj'
      rw [hfree, Option.toList_none, List.length_nil, Nat.zero_add, Nat.add_comm] at hwait
      exact hwait
    · obtain ⟨rfl, rfl⟩ := Prod.mk.injEq .. ▸ Option.some.inj hg
      rw [Function.update_self]
      exact Or.inl rfl

/-- The hart inside goes on with its section, or to the store of `spin_unlock`. -/
theorem Refines.workOn (hr : Refines s a) {st st' : List (δ → δ)} (hin : a.inside = some (h, st))
    {pc : LockPc δ} {data : δ}
    (hpc : pc = .inside st' ∨ (st' = [] ∧ pc = .unlock (s.lock.owner + 1))) :
    Refines { s.setPc h pc with data := data }
      { a with data := data, inside := some (h, st') } := by
  refine hr.moveQueued (inside_mem_parties hin) ?_ rfl rfl hr.entered (fun l0 st heq => ?_)
    (fun j g st hj => ?_) (fun g st hg => ?_)
  · unfold Fifo.parties
    rw [hin]
    rfl
  · rcases hpc with rfl | ⟨_, rfl⟩ <;> cases heq
  · have hgh : h ≠ g := ne_of_inside hr hj hin
    rw [Function.update_of_ne hgh.symm]
    have hwait := hr.waiting j g st hj
    rw [hin] at hwait
    exact hwait
  · obtain ⟨rfl, rfl⟩ := Prod.mk.injEq .. ▸ Option.some.inj hg
    rw [Function.update_self]
    exact hpc

omit [DecidableEq H] in
theorem parties_take (a : Fifo H δ) (h : H) (steps : List (δ → δ)) :
    ({ a with waiting := a.waiting ++ [(h, steps)], taken := a.taken ++ [h] } : Fifo H δ).parties =
      a.parties ++ [h] := by
  unfold Fifo.parties
  rw [← List.append_assoc, List.map_append]
  rfl

/-- `amoadd.w`: the hart joins the end of the queue. -/
theorem Refines.joins [Fintype H] (hr : Refines s a) (hH : Fintype.card H ≤ 2 ^ 16)
    (hnot : h ∉ a.parties) (steps : List (δ → δ)) :
    Refines (s.amoaddInstr h steps)
      { a with waiting := a.waiting ++ [(h, steps)], taken := a.taken ++ [h] } := by
  have hparties := parties_take a h steps
  have hlen : a.parties.length = a.inside.toList.length + a.waiting.length := by
    unfold Fifo.parties
    rw [List.length_map, List.length_append]
  have hne : ∀ g ∈ a.parties, g ≠ h := fun g hg heq => hnot (heq ▸ hg)
  have hlt := hr.length_lt hH hnot
  have howner : (s.lock + ticketInc.setWidth 32).owner = s.lock.owner := s.lock.owner_add_inc
  -- the ticket drawn is the one after the last of the queue
  have hticket : (s.lock.loaded >>> TICKET_SHIFT) &&& lockMask =
      (s.lock.owner + BitVec.ofNat 16 a.parties.length).setWidth 64 := by
    rw [Spinlock.loaded_shift_and_mask, hr.next]
  unfold Locking.amoaddInstr Locking.write Locking.take Locking.setPc
  dsimp only
  generalize (s.lock.loaded >>> TICKET_SHIFT) &&& lockMask = tmp1 at hticket
  generalize hl : s.lock + ticketInc.setWidth 32 = l at howner
  refine ⟨hr.data, congrArg (· ++ [h]) hr.taken, hr.entered, ?_, ?_, fun i g st hi => ?_,
    fun g st hin => ?_, fun g hg => ?_, fun g l0 st hg hres => ?_⟩
  · rw [hparties, List.nodup_append_comm]
    exact List.nodup_cons.mpr ⟨hnot, hr.nodup⟩
  · show l.next = l.owner + _
    rw [hparties, howner, ← hl, Spinlock.next_add_inc, hr.next, List.length_append,
      List.length_singleton, BitVec.ofNat_add, BitVec.add_assoc]
  · show WaitsAt l.owner _ st (Function.update s.pc h _ g)
    rw [howner]
    have hi : (a.waiting ++ [(h, steps)])[i]? = some (g, st) := hi
    by_cases hlast : i < a.waiting.length
    · rw [List.getElem?_append_left hlast] at hi
      rw [Function.update_of_ne (hne g (waiting_mem_parties hi))]
      exact hr.waiting i g st hi
    · have hi0 : i = a.waiting.length := by
        have := (List.getElem?_eq_some_iff.mp hi).1
        rw [List.length_append, List.length_singleton] at this
        omega
      rw [hi0, List.getElem?_append_right (Nat.le_refl _), Nat.sub_self] at hi
      obtain ⟨rfl, rfl⟩ := Prod.mk.injEq .. ▸ Option.some.inj hi
      rw [Function.update_self, hi0, ← hlen]
      refine ⟨rfl, hticket, fun hserved => ?_⟩
      rw [hticket, Spinlock.loaded_and_mask] at hserved
      exact first_of_served hlt hserved
  · show Function.update s.pc h _ g = _ ∨ _ ∧ Function.update s.pc h _ g = .unlock (l.owner + 1)
    rw [howner, Function.update_of_ne (hne g (inside_mem_parties hin))]
    exact hr.inside g st hin
  · rw [hparties, List.mem_append, List.mem_singleton, not_or] at hg
    show Away (Function.update s.pc h _ g)
    rw [Function.update_of_ne hg.2]
    exact hr.away g hg.1
  · cases hres

/-- `spin_unlock`: the next ticket is served. -/
theorem Refines.leaves (hr : Refines s a) (hin : a.inside = some (h, [])) :
    Refines ((s.write (s.lock.setOwner (s.lock.owner + 1))).setPc h .idle)
      { a with inside := none } := by
  have hparties : a.parties = h :: ({ a with inside := none } : Fifo H δ).parties := by
    unfold Fifo.parties
    rw [hin]
    rfl
  have hnd := hr.nodup
  rw [hparties, List.nodup_cons] at hnd
  have howner := s.lock.owner_setOwner (s.lock.owner + 1)
  refine ⟨hr.data, hr.taken, hr.entered, hnd.2, ?_, fun i g st hi => ?_,
    fun g st hg => ?_, fun g hg => ?_, fun g l0 st hg hres => ?_⟩
  · show (s.lock.setOwner (s.lock.owner + 1)).next = (s.lock.setOwner (s.lock.owner + 1)).owner + _
    rw [howner, Spinlock.next_setOwner, hr.next, hparties, List.length_cons, BitVec.ofNat_add,
      BitVec.add_assoc, BitVec.add_comm (BitVec.ofNat 16 _)]
    rfl
  · show WaitsAt (s.lock.setOwner (s.lock.owner + 1)).owner _ st (Function.update s.pc h _ g)
    have hgh : h ≠ g := ne_of_inside hr hi hin
    have hwait := hr.waiting i g st hi
    rw [hin] at hwait
    rw [howner, Function.update_of_ne hgh.symm]
    -- one ticket fewer before it, counted from an owner that is one later
    have hk : s.lock.owner + BitVec.ofNat 16 (1 + i) =
        s.lock.owner + 1 + BitVec.ofNat 16 (0 + i) := by
      rw [BitVec.ofNat_add, Nat.zero_add, ← BitVec.add_assoc]
      rfl
    cases hpc : s.pc g with
    | compare l0 tmp1 st' =>
      rw [hpc] at hwait
      obtain ⟨hst, htmp, hfirst⟩ := hwait
      refine ⟨hst, htmp.trans (congrArg _ hk), fun heq => ?_⟩
      have := hfirst heq
      rw [Option.toList_some, List.length_singleton] at this
      omega
    | reload tmp1 st' =>
      rw [hpc] at hwait
      exact ⟨hwait.1, hwait.2.trans (congrArg _ hk)⟩
    | _ =>
      rw [hpc] at hwait
      exact hwait.elim
  · cases hg
  · show Away (Function.update s.pc h _ g)
    by_cases hgh : g = h
    · rw [hgh, Function.update_self]
      trivial
    · rw [Function.update_of_ne hgh]
      refine hr.away g ?_
      rw [hparties, List.mem_cons, not_or]
      exact ⟨hgh, hg⟩
  · cases hres


omit [DecidableEq H] in
theorem parties_eq_nil (hnil : a.parties = []) : a.inside = none ∧ a.waiting = [] := by
  unfold Fifo.parties at hnil
  rw [List.map_eq_nil_iff, List.append_eq_nil_iff, Option.toList_eq_nil_iff] at hnil
  exact hnil

/-- The `sc.w` of a hart that found the lock free draws a ticket and goes in at once: it is as if it
had joined an empty queue. -/
theorem Refines.jumpsIn [Fintype H] (hr : Refines s a) (hH : Fintype.card H ≤ 2 ^ 16)
    (hnot : h ∉ a.parties) (hfree : s.lock.owner = s.lock.next) (steps : List (δ → δ)) :
    ∃ b, Relation.ReflTransGen Fifo.Step a b ∧
      Refines (((s.write (s.lock + ticketInc.setWidth 32)).take h).enter h steps) b := by
  obtain ⟨hin, hwait⟩ := parties_eq_nil (hr.free hH hnot hfree)
  have hjoin := hr.joins hH hnot steps
  have hhead : ({ a with waiting := a.waiting ++ [(h, steps)], taken := a.taken ++ [h] } :
      Fifo H δ).waiting[0]? = some (h, steps) := by
    rw [hwait]
    rfl
  obtain ⟨b, hb, hrb⟩ := hjoin.goIn hin hhead
  refine ⟨b, .tail (.single (.take a h steps)) hb, ?_⟩
  have heq : (s.amoaddInstr h steps).enter h steps =
      ((s.write (s.lock + ticketInc.setWidth 32)).take h).enter h steps := by
    unfold Locking.amoaddInstr Locking.enter Locking.setPc
    dsimp only
    rw [Function.update_idem]
  rw [← heq]
  exact hrb

/-- The test at label 1 of `spin_lock`. -/
theorem Refines.compareStep (hr : Refines s a) {l0 tmp1 : Word} {steps : List (δ → δ)}
    (hpc : s.pc h = .compare l0 tmp1 steps) :
    ∃ b, Relation.ReflTransGen Fifo.Step a b ∧ Refines (s.compareInstr h l0 tmp1 steps) b := by
  obtain ⟨i, st, hi⟩ := hr.spinner (Or.inl ⟨l0, tmp1, steps, hpc⟩)
  have hwait := hr.waiting i h st hi
  rw [hpc] at hwait
  obtain ⟨rfl, htmp, hfirst⟩ := hwait
  unfold Locking.compareInstr
  dsimp only
  split
  · next heq =>
    have hk := hfirst heq
    have hfree : a.inside = none :=
      Option.toList_eq_nil_iff.mp (List.length_eq_zero_iff.mp (by omega))
    obtain rfl : i = 0 := by omega
    obtain ⟨b, hb, hrb⟩ := hr.goIn hfree hi
    exact ⟨b, .single hb, hrb⟩
  · exact ⟨a, .refl, hr.spinOn hi ⟨rfl, htmp⟩⟩

theorem Refines.reloadStep [Fintype H] (hr : Refines s a) (hH : Fintype.card H ≤ 2 ^ 16)
    {tmp1 : Word} {steps : List (δ → δ)} (hpc : s.pc h = .reload tmp1 steps) :
    Refines (s.setPc h (.compare s.lock.loaded tmp1 steps)) a := by
  obtain ⟨i, st, hi⟩ := hr.spinner (Or.inr ⟨tmp1, steps, hpc⟩)
  have hwait := hr.waiting i h st hi
  rw [hpc] at hwait
  obtain ⟨rfl, htmp⟩ := hwait
  refine hr.spinOn hi ⟨rfl, htmp, fun heq => ?_⟩
  rw [Spinlock.loaded_and_mask, htmp] at heq
  exact first_of_served (hr.place_lt hH hi) heq

/-- A hart that tries the lock and finds it taken returns without it. -/
theorem Refines.lrStep (hr : Refines s a) {steps : List (δ → δ)} (hpc : s.pc h = .lr steps) :
    Refines (s.lrInstr h steps) a := by
  have hnot : h ∉ a.parties := hr.notMem (by rw [hpc]; trivial)
  have hres : ∀ g, g ≠ h → Function.update s.reserved h true g = true → s.reserved g = true := by
    intro g hgh hg
    rwa [Function.update_of_ne hgh] at hg
  unfold Locking.lrInstr
  dsimp only
  split
  · next htaken =>
    rw [Locking.tried, if_neg]
    · exact hr.moveAway hnot .idle trivial hres fun l0 st heq => by cases heq
    · -- a word of which the halves differ is not 0
      intro hzero
      refine htaken (s.lock.trylock_test.mpr ?_)
      have hlock : s.lock = 0 := by
        rw [← hzero]
        apply BitVec.eq_of_getLsbD_eq
        intro i hi
        rw [BitVec.getLsbD_setWidth, s.lock.loaded_getLsbD hi]
        simp [hi]
      rw [hlock]
      decide
  · next htest =>
    rw [ne_eq, not_not] at htest
    refine hr.moveAway hnot (.sc _ steps) trivial hres fun l0 st heq _ => ?_
    obtain ⟨rfl, rfl⟩ := LockPc.sc.injEq .. ▸ heq
    exact ⟨rfl, s.lock.trylock_test.mp htest⟩

theorem Refines.scStep [Fintype H] (hr : Refines s a) (hH : Fintype.card H ≤ 2 ^ 16) {l0 : Word}
    {steps : List (δ → δ)} (hpc : s.pc h = .sc l0 steps) (lost : Bool) :
    ∃ b, Relation.ReflTransGen Fifo.Step a b ∧ Refines (s.scInstr h l0 steps lost) b := by
  have hnot : h ∉ a.parties := hr.notMem (by rw [hpc]; trivial)
  unfold Locking.scInstr
  split
  · next hok =>
    rw [Bool.and_eq_true] at hok
    obtain ⟨rfl, hfree⟩ := hr.reserved h l0 steps hpc hok.1
    rw [Locking.tried, if_pos (by decide), Spinlock.sc_value]
    exact hr.jumpsIn hH hnot hfree steps
  · refine ⟨a, .refl, hr.moveAway hnot (.lr steps) trivial (fun g hgh hg => ?_) fun l0 st heq => by
      cases heq⟩
    rwa [Function.update_of_ne hgh] at hg

/-- Every instruction and every call of the code is at most two steps of the lock with a queue. -/
theorem Refines.step [Fintype H] (hr : Refines s a) (hH : Fintype.card H ≤ 2 ^ 16)
    (i : LockInput H δ) :
    ∃ b, Relation.ReflTransGen Fifo.Step a b ∧ Refines (s.step i) b := by
  have hcall : ∀ h pc, Away pc → (∀ l0 steps, pc ≠ .sc l0 steps) → Refines (s.call h pc) a := by
    intro h pc hpc hnsc
    unfold Locking.call
    split
    · next hidle =>
      exact hr.moveAway (hr.notMem (by rw [hidle]; trivial)) pc hpc (fun _ _ hg => hg)
        fun l0 steps heq => absurd heq (hnsc l0 steps)
    · exact hr
  cases i with
  | spinLock h steps => exact ⟨a, .refl, hcall h _ trivial fun l0 st heq => by cases heq⟩
  | spinTrylock h steps => exact ⟨a, .refl, hcall h _ trivial fun l0 st heq => by cases heq⟩
  | instr h lost =>
    show ∃ b, _ ∧ Refines (s.instr h lost) b
    unfold Locking.instr
    cases hpc : s.pc h with
    | idle => exact ⟨a, .refl, hr⟩
    | amoadd steps =>
      exact ⟨_, .single (.take a h steps), hr.joins hH (hr.notMem (by rw [hpc]; trivial)) steps⟩
    | compare l0 tmp1 steps => exact hr.compareStep hpc
    | reload tmp1 steps => exact ⟨a, .refl, hr.reloadStep hH hpc⟩
    | lr steps => exact ⟨a, .refl, hr.lrStep hpc⟩
    | sc l0 steps => exact hr.scStep hH hpc lost
    | inside steps =>
      obtain ⟨st, hin⟩ := hr.holder (Or.inl ⟨steps, hpc⟩)
      have hst : steps = st := by
        rcases hr.inside h st hin with heq | ⟨_, heq⟩ <;> rw [hpc] at heq
        · exact LockPc.inside.inj heq
        · cases heq
      subst hst
      cases steps with
      | nil =>
        have heq : a = { a with data := s.data, inside := some (h, []) } := by
          rw [← hr.data, ← hin]
        refine ⟨a, .refl, ?_⟩
        rw [heq]
        exact hr.workOn hin (Or.inr ⟨rfl, rfl⟩)
      | cons f fs =>
        refine ⟨_, .single (.work hin), ?_⟩
        rw [hr.data]
        exact hr.workOn hin (Or.inl rfl)
    | unlock owner =>
      obtain ⟨st, hin⟩ := hr.holder (Or.inr ⟨owner, hpc⟩)
      rcases hr.inside h st hin with heq | ⟨rfl, heq⟩ <;> rw [hpc] at heq
      · cases heq
      · obtain rfl := LockPc.unlock.inj heq
        exact ⟨_, .single (.release hin), hr.leaves hin⟩

end Step

end Refinement

/-! ## Runs -/

section Runs

variable {H δ : Type*} [DecidableEq H] [Fintype H]

/-- Every state the harts come to is one of the lock with a queue. -/
theorem refines_from (hH : Fintype.card H ≤ 2 ^ 16) {d : δ} {s : Locking H δ} {a : Fifo H δ}
    (ha : Fifo.Reachable d a) (hr : Refines s a) (is : List (LockInput H δ)) :
    ∃ b, Fifo.Reachable d b ∧ Refines (run Locking.step s is) b := by
  have hinv : ∀ (s : Locking H δ) (i : LockInput H δ),
      (∃ a, Fifo.Reachable d a ∧ Refines s a) → ∃ a, Fifo.Reachable d a ∧ Refines (s.step i) a := by
    rintro s i ⟨a, ha, hr⟩
    obtain ⟨b, hab, hb⟩ := hr.step hH i
    exact ⟨b, ha.trans hab, hb⟩
  exact inv_run_all hinv is ⟨a, ha, hr⟩

theorem refines_run (hH : Fintype.card H ≤ 2 ^ 16) (d : δ) (is : List (LockInput H δ)) :
    ∃ a, Fifo.Reachable d a ∧ Refines (run Locking.step (Locking.init d) is) a :=
  refines_from hH .refl (refines_init d) is

/-- At most one hart has the lock, and the sections take effect on the data as if each were one
step, in the order in which the harts got the lock: what is left of the section of the hart inside
leads from the data to the result of all sections begun. -/
theorem sections_serialised (hH : Fintype.card H ≤ 2 ^ 16) (d : δ) (is : List (LockInput H δ)) :
    let s := run Locking.step (Locking.init d) is
    let serial := perform (s.entered.map Prod.snd).flatten d
    (∀ g h, s.Holds g → s.Holds h → g = h) ∧
      (∀ h steps, s.pc h = .inside steps → perform steps s.data = serial) ∧
      ((∀ h steps, s.pc h ≠ .inside steps) → s.data = serial) := by
  obtain ⟨a, ha, hr⟩ := refines_run hH d is
  intro s serial
  have hserial := ha.orderly.serial
  rw [hr.data, hr.entered] at hserial
  refine ⟨fun g h hg hh => ?_, fun h steps hpc => ?_, fun hno => ?_⟩
  · obtain ⟨st, hg⟩ := hr.holder hg
    obtain ⟨st', hh⟩ := hr.holder hh
    exact congrArg Prod.fst (Option.some.inj (hg.symm.trans hh))
  · obtain ⟨st, hin⟩ := hr.holder (Or.inl ⟨steps, hpc⟩)
    rw [Fifo.pending, hin] at hserial
    rcases hr.inside h st hin with heq | ⟨_, heq⟩
    · obtain rfl : steps = st := LockPc.inside.inj (hpc.symm.trans heq)
      exact hserial
    · have := hpc.symm.trans heq
      cases this
  · cases hin : a.inside with
    | none =>
      rw [Fifo.pending, hin] at hserial
      exact hserial
    | some p =>
      rcases hr.inside p.1 p.2 hin with heq | ⟨hnil, _⟩
      · exact absurd heq (hno _ _)
      · rw [Fifo.pending, hin] at hserial
        have hst : ((some p).map Prod.snd).getD [] = ([] : List (δ → δ)) := hnil
        rw [hst] at hserial
        exact hserial

/-- Hart 0 has the lock and adds 1; hart 1, which is to double, spins; hart 2 tries the
lock in vain. -/
def contendedRun : List (LockInput (Fin 5) Nat) :=
  [.spinLock 0 [(· + 1)], .instr 0 false, .instr 0 false, .spinLock 1 [(· * 2)], .instr 1 false,
    .instr 1 false, .spinTrylock 2 [(· + 7)], .instr 2 false, .instr 0 false]

theorem card_harts : Fintype.card (Fin 5) ≤ 2 ^ 16 := by
  rw [Fintype.card_fin]
  decide

theorem contended_sections_serialised :
    let s := run Locking.step (Locking.init 3) contendedRun
    s.data = 4 ∧ s.taken = [0, 1] ∧ (∀ g h, s.Holds g → s.Holds h → g = h) ∧
      (∀ h steps, s.pc h = .inside steps →
        perform steps s.data = perform (s.entered.map Prod.snd).flatten 3) ∧
      ((∀ h steps, s.pc h ≠ .inside steps) →
        s.data = perform (s.entered.map Prod.snd).flatten 3) :=
  ⟨rfl, rfl, sections_serialised card_harts 3 contendedRun⟩

/-! ### The order of the harts -/

/-- The records only grow. -/
structure Grows (s t : Locking H δ) : Prop where
  taken : s.taken <+: t.taken
  entered : s.entered <+: t.entered

omit [DecidableEq H] [Fintype H] in
theorem Grows.same {s t : Locking H δ} (ht : t.taken = s.taken) (he : t.entered = s.entered) :
    Grows s t := ⟨ht ▸ List.prefix_refl _, he ▸ List.prefix_refl _⟩

omit [DecidableEq H] [Fintype H] in
theorem Grows.trans {s t u : Locking H δ} (h : Grows s t) (h' : Grows t u) : Grows s u :=
  ⟨h.taken.trans h'.taken, h.entered.trans h'.entered⟩

omit [DecidableEq H] [Fintype H] in
theorem grows_take (s : Locking H δ) (l : Spinlock) (h : H) : Grows s ((s.write l).take h) :=
  ⟨List.prefix_append .., List.prefix_refl _⟩

omit [Fintype H] in
theorem grows_enter (s : Locking H δ) (h : H) (steps : List (δ → δ)) : Grows s (s.enter h steps) :=
  ⟨List.prefix_refl _, List.prefix_append ..⟩

omit [Fintype H] in
theorem grows_tried (s : Locking H δ) (h : H) (l0 : Word) (steps : List (δ → δ)) :
    Grows s (s.tried h l0 steps) := by
  unfold Locking.tried
  split
  · exact grows_enter s h steps
  · exact .same rfl rfl

omit [Fintype H] in
theorem grows_instr (s : Locking H δ) (h : H) (lost : Bool) : Grows s (s.instr h lost) := by
  unfold Locking.instr
  cases s.pc h with
  | idle => exact .same rfl rfl
  | amoadd steps =>
    dsimp only [Locking.amoaddInstr]
    generalize s.lock + ticketInc.setWidth 32 = l
    exact (grows_take s l h).trans (.same rfl rfl)
  | compare l0 tmp1 steps =>
    dsimp only [Locking.compareInstr]
    split
    · exact grows_enter s h steps
    · exact .same rfl rfl
  | reload tmp1 steps => exact .same rfl rfl
  | lr steps =>
    dsimp only [Locking.lrInstr]
    generalize hs' : ({ s with reserved := Function.update s.reserved h true } : Locking H δ) = s'
    have hsame : Grows s s' := .same (hs' ▸ rfl) (hs' ▸ rfl)
    split
    · exact hsame.trans (grows_tried s' h _ steps)
    · exact hsame.trans (.same rfl rfl)
  | sc l0 steps =>
    dsimp only [Locking.scInstr]
    split
    · exact (grows_take s _ h).trans (grows_tried _ h 0 steps)
    · exact .same rfl rfl
  | inside steps => cases steps <;> exact .same rfl rfl
  | unlock owner => exact .same rfl rfl

omit [Fintype H] in
theorem grows_step (s : Locking H δ) (i : LockInput H δ) : Grows s (s.step i) := by
  have hcall : ∀ h pc, Grows s (s.call h pc) := by
    intro h pc
    unfold Locking.call
    split <;> exact .same rfl rfl
  cases i with
  | spinLock h steps => exact hcall h _
  | spinTrylock h steps => exact hcall h _
  | instr h lost => exact grows_instr s h lost

omit [Fintype H] in
theorem grows_run (s : Locking H δ) (is : List (LockInput H δ)) : Grows s (run Locking.step s is) :=
  inv_run_all (fun t i (ht : Grows s t) => ht.trans (grows_step t i)) is (.same rfl rfl)

omit [DecidableEq H] [Fintype H] in
/-- The harts that spin are those of the queue. -/
theorem Refines.mem_waiting {s : Locking H δ} {a : Fifo H δ} (hr : Refines s a) (h : H) :
    h ∈ a.waiting.map Prod.fst ↔ s.Spins h := by
  constructor
  · intro hmem
    obtain ⟨⟨g, steps⟩, hp, hg⟩ := List.mem_map.mp hmem
    obtain rfl : g = h := hg
    obtain ⟨i, hi⟩ := List.mem_iff_getElem?.mp hp
    have hw := hr.waiting i g steps hi
    cases hpc : s.pc g with
    | compare l0 tmp1 st => exact Or.inl ⟨l0, tmp1, st, hpc⟩
    | reload tmp1 st => exact Or.inr ⟨tmp1, st, hpc⟩
    | _ =>
      rw [hpc] at hw
      exact hw.elim
  · intro hspin
    obtain ⟨i, steps, hi⟩ := hr.spinner hspin
    exact List.mem_map.mpr ⟨_, List.mem_of_getElem? hi, rfl⟩

/-- `spin_lock_check` tells whether some hart has the lock or waits for it, unless all of `2 ^ 16`
harts do: then the tickets have come round. -/
theorem spinLockCheck_iff (hH : Fintype.card H < 2 ^ 16) (d : δ) (is : List (LockInput H δ)) :
    let s := run Locking.step (Locking.init d) is
    spinLockCheck s.lock = true ↔ ∃ h, s.Holds h ∨ s.Spins h := by
  obtain ⟨a, -, hr⟩ := refines_run (Nat.le_of_lt hH) d is
  intro s
  have hcheck : spinLockCheck s.lock = true ↔ a.parties ≠ [] := by
    have hlen : a.parties.length < 2 ^ 16 := (hr.nodup.length_le_card).trans_lt hH
    rw [spinLockCheck, Bool.not_eq_true', spinLockUnlocked, beq_eq_false_iff_ne, hr.next]
    constructor
    · intro hne hnil
      refine hne ?_
      rw [hnil, List.length_nil, BitVec.add_zero]
    · intro hne heq
      exact hne (List.length_eq_zero_iff.mp (ofNat_eq_zero hlen (eq_zero_of_add heq.symm)))
  rw [hcheck]
  constructor
  · intro hne
    obtain ⟨h, hmem⟩ := List.exists_mem_of_ne_nil _ hne
    rcases mem_parties_cases hmem with ⟨steps, hin⟩ | ⟨i, steps, hi⟩
    · rcases hr.inside h steps hin with hpc | ⟨_, hpc⟩
      · exact ⟨h, Or.inl (Or.inl ⟨steps, hpc⟩)⟩
      · exact ⟨h, Or.inl (Or.inr ⟨_, hpc⟩)⟩
    · exact ⟨h, Or.inr ((hr.mem_waiting h).mp (List.mem_map.mpr ⟨_, List.mem_of_getElem? hi, rfl⟩))⟩
  · rintro ⟨h, hhold | hspin⟩
    · obtain ⟨steps, hin⟩ := hr.holder hhold
      exact List.ne_nil_of_mem (inside_mem_parties hin)
    · obtain ⟨i, steps, hi⟩ := hr.spinner hspin
      exact List.ne_nil_of_mem (waiting_mem_parties hi)

/-- Nobody is let in at the turn of another hart. -/
theorem entered_in_turn (hH : Fintype.card H ≤ 2 ^ 16) {d : δ} {s : Locking H δ} {a : Fifo H δ}
    (ha : Fifo.Reachable d a) (hr : Refines s a) (is : List (LockInput H δ)) {i : Nat} {h : H}
    (hi : (a.waiting.map Prod.fst)[i]? = some h) {p : H × List (δ → δ)}
    (hp : (run Locking.step s is).entered[s.entered.length + i]? = some p) : p.1 = h := by
  obtain ⟨b, hb, hrb⟩ := refines_from hH ha hr is
  have horder := ha.orderly.order
  have horder' := hb.orderly.order
  rw [hr.taken, hr.entered] at horder
  rw [hrb.taken, hrb.entered] at horder'
  -- the ticket of the hart is the same in both states
  obtain ⟨r, hgrow⟩ := (grows_run s is).taken
  have hle : (s.entered.map Prod.fst).length ≤ s.entered.length + i := by
    rw [List.length_map]
    exact Nat.le_add_right ..
  have hdrawn : s.taken[s.entered.length + i]? = some h := by
    rw [horder, List.getElem?_append_right hle, List.length_map, Nat.add_sub_cancel_left]
    exact hi
  have hdrawn' : (run Locking.step s is).taken[s.entered.length + i]? = some h := by
    have hlt := (List.getElem?_eq_some_iff.mp hdrawn).1
    rw [← hgrow, List.getElem?_append_left hlt]
    exact hdrawn
  have hlt := (List.getElem?_eq_some_iff.mp hp).1
  rw [horder', List.getElem?_append_left (by rw [List.length_map]; exact hlt), List.getElem?_map,
    hp] at hdrawn'
  exact Option.some.inj hdrawn'

/-- The harts get the lock in the order in which they draw tickets. Those that spin stand in a queue
`w`: whatever happens next, the hart at place `i` is let in after exactly the `i` before it. -/
theorem first_come_first_served (hH : Fintype.card H ≤ 2 ^ 16) (d : δ)
    (is is' : List (LockInput H δ)) :
    let s := run Locking.step (Locking.init d) is
    let t := run Locking.step s is'
    ∃ w : List H, w.Nodup ∧ (∀ h, h ∈ w ↔ s.Spins h) ∧ s.taken = s.entered.map Prod.fst ++ w ∧
      ∀ i h, w[i]? = some h → ∀ p, t.entered[s.entered.length + i]? = some p → p.1 = h := by
  obtain ⟨a, ha, hr⟩ := refines_run hH d is
  intro s t
  have horder := ha.orderly.order
  rw [hr.taken, hr.entered] at horder
  refine ⟨a.waiting.map Prod.fst, ?_, hr.mem_waiting, horder,
    fun i h hi p hp => entered_in_turn hH ha hr is' hi hp⟩
  have hnd := hr.nodup
  unfold Fifo.parties at hnd
  rw [List.map_append] at hnd
  exact hnd.of_append_right

/-- Hart 1 is the next one. -/
theorem contended_first_come_first_served :
    let s := run Locking.step (Locking.init 3) contendedRun
    let t := run Locking.step s [.instr 0 false, .instr 0 false, .instr 1 false, .instr 1 false]
    ∃ w : List (Fin 5), w.Nodup ∧ (∀ h, h ∈ w ↔ s.Spins h) ∧ s.taken = s.entered.map Prod.fst ++ w ∧
      ∀ i h, w[i]? = some h → ∀ p, t.entered[s.entered.length + i]? = some p → p.1 = h :=
  first_come_first_served card_harts 3 contendedRun
    [.instr 0 false, .instr 0 false, .instr 1 false, .instr 1 false]

/-! ### The hart whose turn it is -/

/-- How many instructions the hart still needs, if it is its turn. -/
def Locking.need (s : Locking H δ) (h : H) : Nat :=
  match s.pc h with
  | .compare l0 tmp1 _ => if tmp1 = l0 &&& lockMask then 1 else 3
  | .reload _ _ => 2
  | _ => 0

omit [DecidableEq H] [Fintype H] in
theorem need_le (s : Locking H δ) (h : H) : s.need h ≤ 3 := by
  unfold Locking.need
  split
  · split <;> omega
  · omega
  · omega

/-- The hart that makes the input. -/
def LockInput.hart : LockInput H δ → H
  | .spinLock h _ => h
  | .spinTrylock h _ => h
  | .instr h _ => h

omit [Fintype H] in
/-- A hart moves itself only. -/
theorem pc_step (s : Locking H δ) {i : LockInput H δ} {h : H} (hne : h ≠ i.hart) :
    (s.step i).pc h = s.pc h := by
  have hset : ∀ (s : Locking H δ) (g : H) (pc : LockPc δ), h ≠ g → (s.setPc g pc).pc h = s.pc h :=
    fun s g pc hne => Function.update_of_ne hne ..
  have hcall : ∀ (g : H) (pc : LockPc δ), h ≠ g → (s.call g pc).pc h = s.pc h := by
    intro g pc hne
    unfold Locking.call
    split
    · exact hset s g pc hne
    · rfl
  have htried : ∀ (s : Locking H δ) (g : H) (l0 : Word) (steps : List (δ → δ)), h ≠ g →
      (s.tried g l0 steps).pc h = s.pc h := by
    intro s g l0 steps hne
    unfold Locking.tried Locking.enter
    split
    · exact hset s g _ hne
    · exact hset s g _ hne
  cases i with
  | spinLock g steps => exact hcall g _ hne
  | spinTrylock g steps => exact hcall g _ hne
  | instr g lost =>
    have hne : h ≠ g := hne
    show (s.instr g lost).pc h = s.pc h
    unfold Locking.instr
    cases s.pc g with
    | idle => rfl
    | amoadd steps => exact hset _ g _ hne
    | compare l0 tmp1 steps =>
      dsimp only [Locking.compareInstr]
      split
      · exact hset s g _ hne
      · exact hset s g _ hne
    | reload tmp1 steps => exact hset s g _ hne
    | lr steps =>
      dsimp only [Locking.lrInstr]
      split
      · exact htried _ g _ steps hne
      · exact hset _ g _ hne
    | sc l0 steps =>
      dsimp only [Locking.scInstr]
      split
      · exact htried _ g _ steps hne
      · exact hset _ g _ hne
    | inside steps => cases steps <;> exact hset s g _ hne
    | unlock owner => exact hset _ g _ hne

omit [Fintype H] in
/-- A hart without the lock does not serve the next ticket. -/
theorem Refines.owner_step {s : Locking H δ} {a : Fifo H δ} (hr : Refines s a) {i : LockInput H δ}
    (hnot : ¬ s.Holds i.hart) : (s.step i).lock.owner = s.lock.owner := by
  have hcall : ∀ g pc, (s.call g pc).lock.owner = s.lock.owner := by
    intro g pc
    unfold Locking.call
    split <;> rfl
  have htried : ∀ (s : Locking H δ) (g : H) (l0 : Word) (steps : List (δ → δ)),
      (s.tried g l0 steps).lock = s.lock := by
    intro s g l0 steps
    unfold Locking.tried
    split <;> rfl
  cases i with
  | spinLock g steps => exact hcall g _
  | spinTrylock g steps => exact hcall g _
  | instr g lost =>
    have hnot : ¬ s.Holds g := hnot
    show (s.instr g lost).lock.owner = s.lock.owner
    unfold Locking.instr
    cases hpc : s.pc g with
    | idle => rfl
    | amoadd steps => exact s.lock.owner_add_inc
    | compare l0 tmp1 steps =>
      dsimp only [Locking.compareInstr]
      split <;> rfl
    | reload tmp1 steps => rfl
    | lr steps =>
      dsimp only [Locking.lrInstr]
      split
      · rw [htried]
      · rfl
    | sc l0 steps =>
      dsimp only [Locking.scInstr]
      split
      · next hok =>
        rw [Bool.and_eq_true] at hok
        obtain ⟨rfl, _⟩ := hr.reserved g l0 steps hpc hok.1
        rw [htried, Spinlock.sc_value]
        exact s.lock.owner_add_inc
      · rfl
    | inside steps => exact absurd (Or.inl ⟨steps, hpc⟩) hnot
    | unlock owner => exact absurd (Or.inr ⟨owner, hpc⟩) hnot

omit [DecidableEq H] in
/-- The hart whose turn it is stands first, and nobody has the lock. -/
theorem Refines.first (hH : Fintype.card H ≤ 2 ^ 16) {s : Locking H δ} {a : Fifo H δ}
    (hr : Refines s a) {h : H} (hs : s.Served h) :
    (a.waiting.map Prod.fst)[0]? = some h ∧ ∀ g, ¬ s.Holds g := by
  obtain ⟨tmp1, steps, htmp, hpc⟩ := hs
  have hspin : s.Spins h := by
    rcases hpc with hpc | ⟨l0, hpc⟩
    · exact Or.inr ⟨tmp1, steps, hpc⟩
    · exact Or.inl ⟨l0, tmp1, steps, hpc⟩
  obtain ⟨i, st, hi⟩ := hr.spinner hspin
  have hwait := hr.waiting i h st hi
  have hserved : (s.lock.owner + BitVec.ofNat 16 (a.inside.toList.length + i)).setWidth 64 =
      s.lock.owner.setWidth 64 := by
    rcases hpc with hpc | ⟨l0, hpc⟩
    · rw [hpc] at hwait
      rw [← hwait.2, htmp]
    · rw [hpc] at hwait
      rw [← hwait.2.1, htmp]
  have hk := first_of_served (hr.place_lt hH hi) hserved
  obtain rfl : i = 0 := by omega
  have hfree : a.inside = none :=
    Option.toList_eq_nil_iff.mp (List.length_eq_zero_iff.mp (by omega))
  refine ⟨by rw [List.getElem?_map, hi]; rfl, fun g hg => ?_⟩
  obtain ⟨st', hin⟩ := hr.holder hg
  rw [hfree] at hin
  cases hin

omit [Fintype H] in
/-- An instruction of the hart whose turn it is: it goes in, or it needs one instruction less. -/
theorem Refines.need_instr {s : Locking H δ} {a : Fifo H δ} (hr : Refines s a) {h : H}
    (hs : s.Served h) (hno : ¬ s.Holds h) (lost : Bool) :
    s.entered.length < (s.instr h lost).entered.length ∨
      ((s.instr h lost).Served h ∧ (s.instr h lost).need h + 1 = s.need h) := by
  have howner : (s.instr h lost).lock.owner = s.lock.owner := hr.owner_step (i := .instr h lost) hno
  obtain ⟨tmp1, steps, htmp, hpc | ⟨l0, hpc⟩⟩ := hs
  · -- the owner is read, and is the ticket of the hart
    have hinstr : s.instr h lost = s.setPc h (.compare s.lock.loaded tmp1 steps) := by
      unfold Locking.instr
      rw [hpc]
    have hpc' : (s.instr h lost).pc h = .compare s.lock.loaded tmp1 steps := by
      rw [hinstr]
      exact Function.update_self ..
    have heq : tmp1 = s.lock.loaded &&& lockMask := by rw [Spinlock.loaded_and_mask, htmp]
    right
    refine ⟨⟨tmp1, steps, by rw [howner, htmp], Or.inr ⟨_, hpc'⟩⟩, ?_⟩
    rw [Locking.need, Locking.need, hpc', hpc]
    dsimp only
    rw [if_pos heq]
  · have hinstr : s.instr h lost = s.compareInstr h l0 tmp1 steps := by
      unfold Locking.instr
      rw [hpc]
    by_cases heq : tmp1 = l0 &&& lockMask
    · left
      rw [hinstr, Locking.compareInstr, if_pos heq]
      show _ < (s.entered ++ [(h, steps)]).length
      rw [List.length_append, List.length_singleton]
      exact Nat.lt_succ_self _
    · have hinstr' : s.instr h lost = s.setPc h (.reload tmp1 steps) := by
        rw [hinstr, Locking.compareInstr, if_neg heq]
      have hpc' : (s.instr h lost).pc h = .reload tmp1 steps := by
        rw [hinstr']
        exact Function.update_self ..
      right
      refine ⟨⟨tmp1, steps, by rw [howner, htmp], Or.inl hpc'⟩, ?_⟩
      rw [Locking.need, Locking.need, hpc', hpc]
      dsimp only
      rw [if_neg heq]

omit [Fintype H] [DecidableEq H] in
theorem need_pos {s : Locking H δ} {h : H} (hs : s.Served h) : 0 < s.need h := by
  obtain ⟨tmp1, steps, _, hpc | ⟨l0, hpc⟩⟩ := hs
  · rw [Locking.need, hpc]
    exact Nat.succ_pos _
  · rw [Locking.need, hpc]
    dsimp only
    split <;> exact Nat.succ_pos _

omit [Fintype H] in
/-- Anything else leaves the hart where it is, and its turn. -/
theorem Refines.served_step {s : Locking H δ} {a : Fifo H δ} (hr : Refines s a) {h : H}
    (hs : s.Served h) (hno : ∀ g, ¬ s.Holds g) {i : LockInput H δ} (hi : i.isInstrOf h = false) :
    (s.step i).Served h ∧ (s.step i).need h = s.need h := by
  have hpc : (s.step i).pc h = s.pc h := by
    by_cases hih : h = i.hart
    · -- a hart that spins makes no call
      have hcall : ∀ pc, (s.call h pc).pc h = s.pc h := by
        intro pc
        obtain ⟨tmp1, steps, _, hspin | ⟨l0, hspin⟩⟩ := hs
        · unfold Locking.call
          rw [hspin]
          exact hspin
        · unfold Locking.call
          rw [hspin]
          exact hspin
      cases i with
      | spinLock g steps =>
        obtain rfl : h = g := hih
        exact hcall _
      | spinTrylock g steps =>
        obtain rfl : h = g := hih
        exact hcall _
      | instr g lost =>
        obtain rfl : h = g := hih
        rw [LockInput.isInstrOf, decide_eq_false_iff_not] at hi
        exact absurd rfl hi
    · exact pc_step s hih
  have howner := hr.owner_step (hno i.hart)
  refine ⟨?_, by rw [Locking.need, Locking.need, hpc]⟩
  obtain ⟨tmp1, steps, htmp, hspin⟩ := hs
  exact ⟨tmp1, steps, by rw [howner, htmp], by rw [hpc]; exact hspin⟩

theorem enters_within (hH : Fintype.card H ≤ 2 ^ 16) {d : δ} {h : H} (is : List (LockInput H δ)) :
    ∀ {s : Locking H δ} {a : Fifo H δ}, Fifo.Reachable d a → Refines s a → s.Served h →
      s.need h ≤ is.countP (LockInput.isInstrOf h) →
      s.entered.length < (run Locking.step s is).entered.length := by
  induction is with
  | nil =>
    intro s a _ _ hs hcount
    exact absurd (need_pos hs) (by rw [List.countP_nil] at hcount; omega)
  | cons i is ih =>
    intro s a ha hr hs hcount
    have hno := (hr.first hH hs).2
    obtain ⟨b, hab, hb⟩ := hr.step hH i
    have hgrow := (grows_step s i).entered.length_le
    have hrest := (grows_run (s.step i) is).entered.length_le
    rw [run_cons]
    cases hi : i.isInstrOf h with
    | false =>
      obtain ⟨hs', hneed⟩ := hr.served_step hs hno hi
      rw [List.countP_cons_of_neg (by rw [hi]; simp)] at hcount
      exact lt_of_le_of_lt hgrow (ih (ha.trans hab) hb hs' (hneed.trans_le hcount))
    | true =>
      obtain ⟨lost, rfl⟩ : ∃ lost, i = .instr h lost := by
        cases i with
        | instr g lost =>
          rw [LockInput.isInstrOf, decide_eq_true_iff] at hi
          exact ⟨lost, by rw [hi]⟩
        | spinLock g steps => cases hi
        | spinTrylock g steps => cases hi
      rw [List.countP_cons_of_pos hi] at hcount
      rcases hr.need_instr hs (hno h) lost with hin | ⟨hs', hneed⟩
      · exact lt_of_lt_of_le hin hrest
      · refine lt_of_le_of_lt hgrow (ih (ha.trans hab) hb hs' ?_)
        show (s.instr h lost).need h ≤ _
        omega

/-- The hart whose turn it is gets the lock with its next three instructions, whatever the other
harts do in between, and nobody gets it before. -/
theorem served_hart_enters (hH : Fintype.card H ≤ 2 ^ 16) (d : δ) (is is' : List (LockInput H δ))
    {h : H} (hs : (run Locking.step (Locking.init d) is).Served h)
    (hcount : 3 ≤ is'.countP (LockInput.isInstrOf h)) :
    let s := run Locking.step (Locking.init d) is
    let t := run Locking.step s is'
    ∃ steps, t.entered[s.entered.length]? = some (h, steps) := by
  intro s t
  obtain ⟨a, ha, hr⟩ := refines_run hH d is
  have hlt : s.entered.length < t.entered.length :=
    enters_within hH is' ha hr hs ((need_le s h).trans hcount)
  obtain ⟨p, hp⟩ : ∃ p, t.entered[s.entered.length]? = some p :=
    ⟨_, List.getElem?_eq_getElem hlt⟩
  have hfirst := entered_in_turn hH ha hr is' (hr.first hH hs).1 hp
  refine ⟨p.2, hp.trans ?_⟩
  rw [← hfirst]

/-- Hart 0 leaves; hart 1 had last read the old owner. -/
theorem contended_hart_enters :
    let s := run Locking.step (Locking.init 3)
      (contendedRun ++ [.instr 1 false, .instr 0 false, .instr 0 false])
    let t := run Locking.step s [.instr 1 false, .instr 1 false, .spinLock 3 [], .instr 1 false]
    ∃ steps, t.entered[s.entered.length]? = some (1, steps) :=
  served_hart_enters card_harts 3 _ [.instr 1 false, .instr 1 false, .spinLock 3 [], .instr 1 false]
    ⟨1, [(· * 2)], rfl, Or.inr ⟨0x20000, rfl⟩⟩ (by decide)

end Runs

end Dorami.Sbi
