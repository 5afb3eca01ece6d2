import Dorami.Concurrent.Ownership
import Dorami.Monitor.Proofs.CallProofs

/-!
# Ownership of enclave ids and regions

What the local variables of a call say about the tables is stated by `Inv`: each create call is
alone with an `ALLOCATED` enclave and owns the regions it has obtained, and each destroy call is
alone with a `DESTROYING` enclave that still owns the regions the call has not freed.

A step gives up what the call claims, changes a part of the tables that nobody claims any more, and
makes the claims of the next step. The lemmas below are about these three parts.
-/

namespace Dorami.Sm

open Riscv Lib

namespace Ownership

variable {H : Type*} {s : Ownership H} {h : H} {eid : Nat}

/-- The entry of `enclaves[]` names these two regions. -/
structure Names (en : EnclaveCore) (region sharedRegion : Nat) : Prop where
  epm : en.regions 0 = ⟨region, .epm⟩
  utm : en.regions 1 = ⟨sharedRegion, .utm⟩

/-- The enclave is neither made nor taken apart by a call. -/
def Settled (en : EnclaveCore) : Prop :=
  en.state ≠ .invalid ∧ en.state ≠ .allocated ∧ en.state ≠ .destroying

/-- What an enclave that is neither made nor taken apart relies on. -/
def HasRegions (s : Ownership H) (eid : Nat) : Prop := ∃ region sharedRegion,
  Names (s.enclaves eid) region sharedRegion ∧ region ≠ sharedRegion ∧
    s.owner region = some (.enclave eid) ∧ s.owner sharedRegion = some (.enclave eid)

/-- What a call in progress relies on, besides the state of its enclave and the regions it holds. -/
def Relies (s : Ownership H) : OwnPc → Prop
  | .measure eid region sharedRegion => Names (s.enclaves eid) region sharedRegion
  | .scan eid i => ∃ region sharedRegion, Names (s.enclaves eid) region sharedRegion ∧
      region ≠ sharedRegion ∧ (i = 0 → s.owner region = some (.enclave eid)) ∧
      s.owner sharedRegion = some (.enclave eid)
  | .unsetEpm eid i rid | .freeEpm eid i rid => ∃ sharedRegion, i = 0 ∧
      Names (s.enclaves eid) rid sharedRegion ∧ rid ≠ sharedRegion ∧
      s.owner rid = some (.enclave eid) ∧ s.owner sharedRegion = some (.enclave eid)
  | .freeUtm eid => ∃ region sharedRegion, Names (s.enclaves eid) region sharedRegion ∧
      s.owner sharedRegion = some (.enclave eid)
  | _ => True

/-- No call of a hart other than `h` is making or taking apart the enclave. -/
def Alone (s : Ownership H) (h : H) (eid : Nat) : Prop :=
  ∀ k, k ≠ h → (s.pc k).creates ≠ some eid ∧ (s.pc k).destroys ≠ some eid

/-- What a call of hart `h` claims when it has come to `pc`. -/
structure Claims (s : Ownership H) (h : H) (pc : OwnPc) : Prop where
  making : ∀ eid, pc.creates = some eid → (s.enclaves eid).state = .allocated ∧ Alone s h eid
  ending : ∀ eid, pc.destroys = some eid → (s.enclaves eid).state = .destroying ∧ Alone s h eid
  held : ∀ rid ∈ pc.holds, s.owner rid = some (.call h)
  nodup : pc.holds.Nodup
  relies : Relies s pc

/-- The invariant. -/
structure Inv (s : Ownership H) : Prop where
  claims : ∀ h, Claims s h (s.pc h)
  defined : ∀ rid o, s.owner rid = some o → s.table.isPmpRegionValid rid = true
  rest : ∀ eid i, 2 ≤ i → i < ENCLAVE_REGIONS_MAX → ((s.enclaves eid).regions i).type = .invalid
  settled : ∀ eid, Settled (s.enclaves eid) → HasRegions s eid

theorem claims_idle : Claims s h .idle := by
  refine ⟨fun _ hc => ?_, fun _ hd => ?_, fun _ hr => ?_, List.nodup_nil, trivial⟩
  all_goals contradiction

theorem inv_boot : Inv (boot : Ownership H) := by
  refine ⟨fun h => claims_idle, fun rid o ho => ?_, fun _ _ _ _ => rfl,
    fun eid hset => absurd rfl hset.1⟩
  contradiction

/-- Nobody is making or taking apart an enclave in another state. -/
theorem Inv.alone_of_state (hi : Inv s) (ha : (s.enclaves eid).state ≠ .allocated)
    (hd : (s.enclaves eid).state ≠ .destroying) : Alone s h eid :=
  fun k _ => ⟨fun hk => ha ((hi.claims k).making eid hk).1,
    fun hk => hd ((hi.claims k).ending eid hk).1⟩

/-- A claim on the regions needs only the owners and the entry of the enclave. -/
theorem Relies.mono {s' : Ownership H} {pc : OwnPc} (hr : Relies s pc)
    (hen : ∀ eid, pc.creates = some eid ∨ pc.destroys = some eid → s'.enclaves eid = s.enclaves eid)
    (how : ∀ rid eid, pc.destroys = some eid → s.owner rid = some (.enclave eid) →
      s'.owner rid = some (.enclave eid)) : Relies s' pc := by
  cases pc with
  | measure eid region sharedRegion =>
    show Names (s'.enclaves eid) region sharedRegion
    rw [hen eid (Or.inl rfl)]
    exact hr
  | scan eid i =>
    obtain ⟨region, sharedRegion, hnames, hne, hepm, hutm⟩ := hr
    refine ⟨region, sharedRegion, ?_, hne, fun h0 => how _ _ rfl (hepm h0), how _ _ rfl hutm⟩
    rw [hen eid (Or.inr rfl)]
    exact hnames
  | unsetEpm eid i rid =>
    obtain ⟨sharedRegion, h0, hnames, hne, hepm, hutm⟩ := hr
    refine ⟨sharedRegion, h0, ?_, hne, how _ _ rfl hepm, how _ _ rfl hutm⟩
    rw [hen eid (Or.inr rfl)]
    exact hnames
  | freeEpm eid i rid =>
    obtain ⟨sharedRegion, h0, hnames, hne, hepm, hutm⟩ := hr
    refine ⟨sharedRegion, h0, ?_, hne, how _ _ rfl hepm, how _ _ rfl hutm⟩
    rw [hen eid (Or.inr rfl)]
    exact hnames
  | freeUtm eid =>
    obtain ⟨region, sharedRegion, hnames, hutm⟩ := hr
    refine ⟨region, sharedRegion, ?_, how _ _ rfl hutm⟩
    rw [hen eid (Or.inr rfl)]
    exact hnames
  | _ => trivial

theorem HasRegions.mono {s' : Ownership H} (hr : HasRegions s eid)
    (hen : s'.enclaves eid = s.enclaves eid)
    (how : ∀ rid, s.owner rid = some (.enclave eid) → s'.owner rid = some (.enclave eid)) :
    HasRegions s' eid := by
  obtain ⟨region, sharedRegion, hnames, hne, hepm, hutm⟩ := hr
  refine ⟨region, sharedRegion, ?_, hne, how _ hepm, how _ hutm⟩
  rw [hen]
  exact hnames

/-! ## Claims come and go -/

variable [DecidableEq H]

theorem pc_goto (pc : OwnPc) (k : H) : (s.goto h pc).pc k = if k = h then pc else s.pc k := by
  simp only [goto, Function.update_apply]

theorem pc_goto_self {pc : OwnPc} : (s.goto h pc).pc h = pc := Function.update_self ..

theorem goto_goto (pc pc' : OwnPc) : (s.goto h pc).goto h pc' = s.goto h pc' := by
  simp [goto]

/-- The claims of a call do not depend on how far the call has come. -/
theorem Claims.goto {pc : OwnPc} (hc : Claims s h pc) (pc' : OwnPc) :
    Claims (s.goto h pc') h pc := by
  have halone : ∀ {eid}, Alone s h eid → Alone (s.goto h pc') h eid := by
    intro eid ha g hg
    rw [pc_goto, if_neg hg]
    exact ha g hg
  exact ⟨fun eid he => (hc.making eid he).imp_right halone,
    fun eid he => (hc.ending eid he).imp_right halone, hc.held, hc.nodup,
    hc.relies.mono (fun _ _ => rfl) fun _ _ _ ho => ho⟩

/-- The call goes on with claims that hold. -/
theorem Inv.goto (hi : Inv s) {pc : OwnPc} (hc : Claims s h pc) : Inv (s.goto h pc) := by
  refine ⟨fun k => ?_, hi.defined, hi.rest, hi.settled⟩
  rw [pc_goto]
  split
  · next heq =>
    subst heq
    exact hc.goto pc
  · next hne =>
    obtain ⟨making, ending, held, nodup, relies⟩ := hi.claims k
    -- what hart `k` is alone with, the new claims of hart `h` do not touch
    have halone : ∀ {eid}, (s.pc k).creates = some eid ∨ (s.pc k).destroys = some eid →
        Alone s k eid → Alone (s.goto h pc) k eid := by
      intro eid hk ha g hg
      rw [pc_goto]
      split
      · constructor
        · intro he
          have hno := (hc.making eid he).2 k hne
          exact hk.elim hno.1 hno.2
        · intro he
          have hno := (hc.ending eid he).2 k hne
          exact hk.elim hno.1 hno.2
      · exact ha g hg
    exact ⟨fun eid he => (making eid he).imp_right (halone (Or.inl he)),
      fun eid he => (ending eid he).imp_right (halone (Or.inr he)), held, nodup,
      relies.mono (fun _ _ => rfl) fun _ _ _ ho => ho⟩

/-- The call gives up its claims. -/
theorem Inv.drop (hi : Inv s) : Inv (s.goto h .idle) := hi.goto claims_idle

/-- The call takes up claims again. -/
theorem Inv.take (hi : Inv (s.goto h .idle)) {pc : OwnPc} (hc : Claims s h pc) :
    Inv (s.goto h pc) := by
  rw [← goto_goto .idle pc]
  exact hi.goto (hc.goto .idle)

/-- No call is making or taking apart the enclave. -/
def Unclaimed (s : Ownership H) (eid : Nat) : Prop :=
  ∀ k, (s.pc k).creates ≠ some eid ∧ (s.pc k).destroys ≠ some eid

/-- Once its call has given up its claims, nobody claims the enclave that a hart was alone with. -/
theorem Alone.unclaimed (ha : Alone s h eid) : Unclaimed (s.goto h .idle) eid := by
  intro k
  rw [pc_goto]
  split
  · constructor <;> intro hc <;> cases hc
  · next hne => exact ha k hne

/-! ## Changes of what nobody claims -/

omit [DecidableEq H] in
/-- Claims on other enclaves and regions survive a change of the tables. -/
theorem Claims.mono {s' : Ownership H} {pc : OwnPc} (hc : Claims s h pc) (hpc : s'.pc = s.pc)
    (hen : ∀ eid, pc.creates = some eid ∨ pc.destroys = some eid → s'.enclaves eid = s.enclaves eid)
    (hheld : ∀ rid ∈ pc.holds, s'.owner rid = s.owner rid)
    (how : ∀ rid eid, pc.destroys = some eid → s.owner rid = some (.enclave eid) →
      s'.owner rid = some (.enclave eid)) : Claims s' h pc := by
  have halone : ∀ {eid}, Alone s h eid → Alone s' h eid := by
    intro eid ha
    unfold Alone
    rw [hpc]
    exact ha
  refine ⟨fun eid he => ?_, fun eid he => ?_, fun rid hr => ?_, hc.nodup, hc.relies.mono hen how⟩
  · rw [hen eid (Or.inl he)]
    exact (hc.making eid he).imp_right halone
  · rw [hen eid (Or.inr he)]
    exact (hc.ending eid he).imp_right halone
  · rw [hheld rid hr]
    exact hc.held rid hr

omit [DecidableEq H] in
/-- The entry of an enclave that nobody claims is written. -/
theorem Inv.write (hi : Inv s) (hno : Unclaimed s eid) {en : EnclaveCore}
    (hrest : ∀ i, 2 ≤ i → i < ENCLAVE_REGIONS_MAX → (en.regions i).type = .invalid)
    (hset : ¬ Settled en) : Inv (s.write eid en) := by
  have hother : ∀ {eid'}, eid' ≠ eid → (s.write eid en).enclaves eid' = s.enclaves eid' :=
    fun hne => Function.update_of_ne hne ..
  have hself : (s.write eid en).enclaves eid = en := Function.update_self ..
  refine ⟨fun k => (hi.claims k).mono rfl (fun eid' hk => hother ?_) (fun _ _ => rfl)
    fun _ _ _ ho => ho, hi.defined, fun eid' i h2 hi8 => ?_, fun eid' hs => ?_⟩
  · rintro rfl
    exact hk.elim (hno k).1 (hno k).2
  · by_cases he : eid' = eid
    · rw [he, hself]
      exact hrest i h2 hi8
    · rw [hother he]
      exact hi.rest eid' i h2 hi8
  · by_cases he : eid' = eid
    · rw [he, hself] at hs
      exact absurd hs hset
    · rw [hother he] at hs
      exact (hi.settled eid' hs).mono (hother he) fun _ ho => ho

omit [DecidableEq H] in
/-- A create call obtains a region. -/
theorem Inv.obtain (hi : Inv s) {start size : Word} {pri : PmpPriority} {rid : Nat} {t : PmpTable}
    {r : PmpRegion} (hinit : InitOk s.table start size pri false rid r t) :
    Inv { s with table := t, owner := Function.update s.owner rid (some (.call h)) } := by
  -- the slot was free, so nobody owned it
  have hnone : ∀ o, s.owner rid ≠ some o := by
    intro o ho
    have hv := hi.defined rid o ho
    rw [(getFreeRegionIdx_spec hinit.slot).2.1] at hv
    cases hv
  have hkeep : ∀ {rid' o}, s.owner rid' = some o →
      Function.update s.owner rid (some (.call h)) rid' = some o := by
    intro rid' o ho
    rw [Function.update_of_ne]
    · exact ho
    · rintro rfl
      exact hnone o ho
  refine ⟨fun k => (hi.claims k).mono rfl (fun _ _ => rfl) (fun rid' hr => ?_)
    fun _ _ _ ho => hkeep ho, fun rid' o ho => ?_, hi.rest,
    fun eid' hs => (hi.settled eid' hs).mono rfl fun _ ho => hkeep ho⟩
  · have ho := (hi.claims k).held rid' hr
    exact (hkeep ho).trans ho.symm
  · show t.isPmpRegionValid rid' = true
    rw [hinit.adds.valid]
    by_cases heq : rid' = rid
    · simp [heq]
    · have ho' : s.owner rid' = some o := (Function.update_of_ne heq ..).symm.trans ho
      rw [hi.defined rid' o ho']
      rfl

omit [DecidableEq H] in
/-- A region that no call and no enclave claims is freed. -/
theorem Inv.free (hi : Inv s) {rid : Nat} (hheld : ∀ k, rid ∉ (s.pc k).holds)
    (howner : ∀ eid, s.owner rid = some (.enclave eid) →
      ¬ Settled (s.enclaves eid) ∧ Unclaimed s eid)
    (hv : s.table.isPmpRegionValid rid = true) : Inv (s.regionFree rid) := by
  have hkeep : ∀ {rid'}, rid' ≠ rid → (s.regionFree rid).owner rid' = s.owner rid' :=
    fun hne => Function.update_of_ne hne ..
  refine ⟨fun k => (hi.claims k).mono rfl (fun _ _ => rfl) (fun rid' hr => hkeep ?_)
    fun rid' eid hd ho => ?_, fun rid' o ho => ?_, hi.rest,
    fun eid hs => (hi.settled eid hs).mono rfl fun rid' ho => ?_⟩
  · rintro rfl
    exact hheld k hr
  · rw [hkeep]
    · exact ho
    · rintro rfl
      exact ((howner eid ho).2 k).2 hd
  · by_cases heq : rid' = rid
    · have hself : (s.regionFree rid).owner rid = none := Function.update_self ..
      rw [heq, hself] at ho
      cases ho
    · rw [hkeep heq] at ho
      show (s.table.pmpRegionFree rid).1.isPmpRegionValid rid' = true
      rw [(pmpRegionFree_removes hv).valid, hi.defined rid' o ho]
      simpa using heq
  · rw [hkeep]
    · exact ho
    · rintro rfl
      exact (howner eid ho).1 hs

/-- A create call that has given up its claims makes its enclave `FRESH`. -/
theorem Inv.publish (hi : Inv s) (hidle : s.pc h = .idle) (hno : Unclaimed s eid)
    {region sharedRegion : Nat} (hnames : Names (s.enclaves eid) region sharedRegion)
    (hne : region ≠ sharedRegion) (hepm : s.owner region = some (.call h))
    (hutm : s.owner sharedRegion = some (.call h)) :
    Inv (s.publish eid region sharedRegion) := by
  have hother : ∀ {eid'}, eid' ≠ eid →
      (s.publish eid region sharedRegion).enclaves eid' = s.enclaves eid' :=
    fun hne => Function.update_of_ne hne ..
  have hself : (s.publish eid region sharedRegion).enclaves eid =
      (s.enclaves eid).setState .fresh :=
    Function.update_self ..
  have hshared : (s.publish eid region sharedRegion).owner sharedRegion = some (.enclave eid) :=
    Function.update_self ..
  have hregion : (s.publish eid region sharedRegion).owner region = some (.enclave eid) :=
    (Function.update_of_ne hne ..).trans (Function.update_self ..)
  -- regions of others keep their owner
  have hkeep : ∀ {rid}, s.owner rid ≠ some (.call h) →
      (s.publish eid region sharedRegion).owner rid = s.owner rid := by
    intro rid ho
    have h1 : rid ≠ region := by
      rintro rfl
      exact ho hepm
    have h2 : rid ≠ sharedRegion := by
      rintro rfl
      exact ho hutm
    exact (Function.update_of_ne h2 ..).trans (Function.update_of_ne h1 ..)
  have hencl : ∀ {rid eid'}, s.owner rid = some (.enclave eid') →
      (s.publish eid region sharedRegion).owner rid = some (.enclave eid') := by
    intro rid eid' ho
    rw [hkeep]
    · exact ho
    · rw [ho]
      simp
  refine ⟨fun k => (hi.claims k).mono rfl (fun eid' hk => hother ?_) (fun rid hr => hkeep ?_)
    fun _ _ _ ho => hencl ho, fun rid o ho => ?_, fun eid' i h2 hi8 => ?_, fun eid' hs => ?_⟩
  · rintro rfl
    exact hk.elim (hno k).1 (hno k).2
  · have ho := (hi.claims k).held rid hr
    rw [ho]
    intro heq
    obtain rfl : k = h := by simpa using heq
    rw [hidle] at hr
    cases hr
  · by_cases hcall : s.owner rid = some (.call h)
    · exact hi.defined rid _ hcall
    · rw [hkeep hcall] at ho
      exact hi.defined rid o ho
  · by_cases he : eid' = eid
    · rw [he, hself]
      exact hi.rest eid i h2 hi8
    · rw [hother he]
      exact hi.rest eid' i h2 hi8
  · by_cases he : eid' = eid
    · subst he
      refine ⟨region, sharedRegion, ?_, hne, hregion, hshared⟩
      rw [hself]
      exact ⟨hnames.epm, hnames.utm⟩
    · rw [hother he] at hs
      exact (hi.settled eid' hs).mono (hother he) fun _ ho => hencl ho

/-! ## Steps -/

omit [DecidableEq H] in
theorem enclaves_setState (st : EnclaveState) :
    (s.setState eid st).enclaves eid = (s.enclaves eid).setState st := Function.update_self ..

/-- A create call is given an id. -/
theorem Inv.alloc (hi : Inv s) {args : CreateArgs} (hfree : s.freeEid = some eid) :
    Inv ((s.setState eid .allocated).goto h (.epm eid args)) := by
  have hst : (s.enclaves eid).state = .invalid := by
    simpa using List.find?_some hfree
  have halone : ∀ k, Alone s k eid := fun k =>
    hi.alone_of_state (by rw [hst]; decide) (by rw [hst]; decide)
  have hset : ¬ Settled ((s.enclaves eid).setState .allocated) := fun hs => hs.2.1 rfl
  have hwrite : Inv ((s.setState eid .allocated).goto h .idle) :=
    hi.drop.write (halone h).unclaimed (hi.rest eid) hset
  refine hwrite.take ⟨fun eid' he => ?_, fun _ hd => ?_, fun _ hr => ?_, List.nodup_nil, trivial⟩
  · cases he
    exact ⟨by rw [enclaves_setState]; rfl, halone h⟩
  · cases hd
  · cases hr

/-- A destroy call passes its test. -/
theorem Inv.condemn (hi : Inv s) (hset : Settled (s.enclaves eid)) :
    Inv ((s.setState eid .destroying).goto h (.scan eid 0)) := by
  have halone : Alone s h eid := hi.alone_of_state hset.2.1 hset.2.2
  obtain ⟨region, sharedRegion, hnames, hne, hepm, hutm⟩ := hi.settled eid hset
  have hset' : ¬ Settled ((s.enclaves eid).setState .destroying) := fun hs => hs.2.2 rfl
  have hwrite : Inv ((s.setState eid .destroying).goto h .idle) :=
    hi.drop.write halone.unclaimed (hi.rest eid) hset'
  refine hwrite.take ⟨fun _ hc => ?_, fun eid' he => ?_, fun _ hr => ?_, List.nodup_nil, ?_⟩
  · cases hc
  · cases he
    exact ⟨by rw [enclaves_setState]; rfl, halone⟩
  · cases hr
  · refine ⟨region, sharedRegion, ?_, hne, fun _ => hepm, hutm⟩
    rw [enclaves_setState]
    exact ⟨hnames.epm, hnames.utm⟩

omit [DecidableEq H] in
/-- A call that goes on with the same enclave and no more regions. -/
theorem Claims.keep {pc pc' : OwnPc} (hc : Claims s h pc) (hcr : pc'.creates = pc.creates)
    (hds : pc'.destroys = pc.destroys) (hholds : pc'.holds.Sublist pc.holds)
    (hrel : Relies s pc') : Claims s h pc' := by
  refine ⟨fun eid he => hc.making eid ?_, fun eid he => hc.ending eid ?_,
    fun rid hr => hc.held rid (hholds.subset hr), hc.nodup.sublist hholds, hrel⟩
  · rw [← hcr]
    exact he
  · rw [← hds]
    exact he

omit [DecidableEq H] in
/-- The call of hart `h` is alone with its enclave. -/
theorem Inv.alone (hi : Inv s) {pc : OwnPc} (hpc : s.pc h = pc)
    (hk : pc.creates = some eid ∨ pc.destroys = some eid) :
    Alone s h eid ∧ ¬ Settled (s.enclaves eid) := by
  subst hpc
  rcases hk with hk | hk
  · obtain ⟨hst, ha⟩ := (hi.claims h).making eid hk
    exact ⟨ha, fun hs => hs.2.1 hst⟩
  · obtain ⟨hst, ha⟩ := (hi.claims h).ending eid hk
    exact ⟨ha, fun hs => hs.2.2 hst⟩

/-- The call writes the members of its enclave. -/
theorem Inv.rewrite (hi : Inv s) {pc pc' : OwnPc} (hpc : s.pc h = pc)
    (hk : pc.creates = some eid ∨ pc.destroys = some eid) (en : EnclaveCore)
    (hst : en.state = (s.enclaves eid).state)
    (hrest : ∀ i, 2 ≤ i → i < ENCLAVE_REGIONS_MAX → (en.regions i).type = .invalid)
    (hcr : pc'.creates = pc.creates) (hds : pc'.destroys = pc.destroys)
    (hholds : pc'.holds = pc.holds) (hrel : Relies (s.write eid en) pc') :
    Inv ((s.write eid en).goto h pc') := by
  obtain ⟨halone, hset⟩ := hi.alone hpc hk
  subst hpc
  have hset' : ¬ Settled en := by
    unfold Settled at hset ⊢
    rw [hst]
    exact hset
  have hwrite : Inv ((s.write eid en).goto h .idle) := hi.drop.write halone.unclaimed hrest hset'
  -- the state of every enclave is what it was
  have hstate : ∀ eid', ((s.write eid en).enclaves eid').state = (s.enclaves eid').state := by
    intro eid'
    by_cases he : eid' = eid
    · subst he
      exact (congrArg EnclaveCore.state (Function.update_self ..)).trans hst
    · exact congrArg EnclaveCore.state (Function.update_of_ne he ..)
  obtain ⟨making, ending, held, nodup, _⟩ := hi.claims h
  refine hwrite.take ⟨fun eid' he => ?_, fun eid' he => ?_, ?_, ?_, hrel⟩
  · rw [hstate]
    exact making eid' (hcr.symm.trans he)
  · rw [hstate]
    exact ending eid' (hds.symm.trans he)
  · rw [hholds]
    exact held
  · rw [hholds]
    exact nodup

/-- The call releases its id. -/
theorem Inv.release (hi : Inv s) {pc : OwnPc} (hpc : s.pc h = pc)
    (hk : pc.creates = some eid ∨ pc.destroys = some eid) :
    Inv ((s.setState eid .invalid).goto h .idle) :=
  hi.drop.write (hi.alone hpc hk).1.unclaimed (hi.rest eid) fun hs => hs.1 rfl

/-- `pmp_region_init_atomic` in a create call. -/
theorem Inv.regionInit (hi : Inv s) {start size : Word} {pri : PmpPriority} {pc fail : OwnPc}
    {next : Nat → OwnPc} (hpc : s.pc h = pc) (hcr : ∀ rid, (next rid).creates = pc.creates)
    (hds : ∀ rid, (next rid).destroys = none) (hholds : ∀ rid, (next rid).holds = pc.holds ++ [rid])
    (hrel : ∀ (s' : Ownership H) rid, Relies s' (next rid)) (hfail : Claims s h fail) :
    Inv (s.regionInit h start size pri next fail) := by
  subst hpc
  unfold Ownership.regionInit
  split
  · next t rid heq =>
    obtain ⟨r, hinit⟩ := pmpRegionInit_ok heq
    have hobtain : Inv ({ s with
        table := t, owner := Function.update s.owner rid (some (.call h)) }.goto h .idle) :=
      Inv.obtain (s := s.goto h .idle) hi.drop hinit
    obtain ⟨making, _, held, nodup, _⟩ := hi.claims h
    -- the region is new
    have hnew : rid ∉ (s.pc h).holds := by
      intro hmem
      have hv := hi.defined rid _ (held rid hmem)
      rw [(getFreeRegionIdx_spec hinit.slot).2.1] at hv
      cases hv
    refine hobtain.take ⟨fun eid he => making eid ((hcr rid).symm.trans he), fun eid he => ?_,
      fun rid' hr => ?_, ?_, hrel _ rid⟩
    · rw [hds rid] at he
      cases he
    · rw [hholds rid] at hr
      by_cases hrid : rid' = rid
      · rw [hrid]
        exact Function.update_self ..
      · refine (Function.update_of_ne hrid ..).trans (held rid' ?_)
        simpa [hrid] using hr
    · rw [hholds rid]
      exact List.nodup_append.mpr ⟨nodup, by simp, by
        rintro a ha b hb rfl
        rw [List.mem_singleton] at hb
        exact hnew (hb ▸ ha)⟩
  · next t e heq =>
    have ht : t = s.table := pmpRegionInit_error heq
    subst ht
    exact hi.goto hfail

/-- `pmp_region_free_atomic` in a create call. -/
theorem Inv.freeHeld (hi : Inv s) {rid : Nat} {pc pc' : OwnPc} (hpc : s.pc h = pc)
    (hholds : pc.holds = pc'.holds ++ [rid]) (hcr : pc'.creates = pc.creates)
    (hds : pc'.destroys = none) (hrel : ∀ s' : Ownership H, Relies s' pc') :
    Inv ((s.regionFree rid).goto h pc') := by
  subst hpc
  obtain ⟨making, _, held, nodup, _⟩ := hi.claims h
  rw [hholds] at held nodup
  have ho : s.owner rid = some (.call h) := held rid (by simp)
  have hfree : Inv ((s.regionFree rid).goto h .idle) := by
    refine Inv.free (s := s.goto h .idle) hi.drop (fun k hr => ?_) (fun eid he => ?_)
      (hi.defined rid _ ho)
    · rw [pc_goto] at hr
      split at hr
      · cases hr
      · next hne =>
        have hk := (hi.claims k).held rid hr
        rw [ho] at hk
        exact hne (by simpa using hk.symm)
    · have he : s.owner rid = some (.enclave eid) := he
      rw [ho] at he
      cases he
  refine hfree.take ⟨fun eid he => making eid (hcr.symm.trans he), fun eid he => ?_,
    fun rid' hr => ?_, nodup.sublist (List.sublist_append_left ..), hrel _⟩
  · rw [hds] at he
    cases he
  · have hne : rid' ≠ rid := by
      rintro rfl
      exact (List.nodup_append.mp nodup).2.2 rid' hr rid' (by simp) rfl
    exact (Function.update_of_ne hne ..).trans (held rid' (List.mem_append_left _ hr))

/-- `pmp_region_free_atomic` in a destroy call. -/
theorem Inv.freeOwned (hi : Inv s) {rid : Nat} {pc pc' : OwnPc} (hpc : s.pc h = pc)
    (hd : pc.destroys = some eid) (ho : s.owner rid = some (.enclave eid))
    (hcr : pc'.creates = none) (hds : pc'.destroys = some eid) (hholds : pc'.holds = [])
    (hrel : Relies (s.regionFree rid) pc') : Inv ((s.regionFree rid).goto h pc') := by
  obtain ⟨halone, hset⟩ := hi.alone hpc (Or.inr hd)
  subst hpc
  have hfree : Inv ((s.regionFree rid).goto h .idle) := by
    refine Inv.free (s := s.goto h .idle) hi.drop (fun k hr => ?_) (fun eid' he => ?_)
      (hi.defined rid _ ho)
    · have hk := (hi.drop.claims k).held rid hr
      have hk : s.owner rid = some (.call k) := hk
      rw [ho] at hk
      cases hk
    · have he : s.owner rid = some (.enclave eid') := he
      rw [ho] at he
      cases he
      exact ⟨hset, halone.unclaimed⟩
  refine hfree.take ⟨fun eid' he => ?_, fun eid' he => ?_, fun rid' hr => ?_, ?_, hrel⟩
  · rw [hcr] at he
    cases he
  · exact (hi.claims h).ending eid' (hd.trans (hds.symm.trans he))
  · rw [hholds] at hr
    cases hr
  · rw [hholds]
    exact List.nodup_nil

omit [DecidableEq H] in
theorem Names.utmIndex {region sharedRegion : Nat}
    (hnames : Names (s.enclaves eid) region sharedRegion) : s.utmIndex eid = some 1 := by
  simp [Ownership.utmIndex, ENCLAVE_REGIONS_MAX, List.range_succ, hnames.epm, hnames.utm]

/-- One round of the destroy loop: only entry 0 is an EPM. -/
theorem Inv.scan (hi : Inv s) {i : Nat} (hpc : s.pc h = .scan eid i) (ok : Bool) :
    Inv (s.advance h ok) := by
  have hc := hi.claims h
  rw [hpc] at hc
  obtain ⟨region, sharedRegion, hnames, hne, hepm, hutm⟩ := hc.relies
  simp only [advance, hpc]
  split
  · next hlt =>
    split
    · exact hi.goto (hc.keep rfl rfl (.refl _) ⟨region, sharedRegion, hnames, hne, nofun, hutm⟩)
    · next htype =>
      have h0 : i = 0 := by
        by_contra h0
        by_cases h1 : i = 1
        · exact htype (Or.inr (by rw [h1, hnames.utm]))
        · exact htype (Or.inl (hi.rest eid i (by omega) hlt))
      subst h0
      rw [hnames.epm]
      exact hi.goto (hc.keep rfl rfl (.refl _) ⟨sharedRegion, rfl, hnames, hne, hepm rfl, hutm⟩)
  · exact hi.goto (hc.keep rfl rfl (.refl _) ⟨region, sharedRegion, hnames, hutm⟩)

/-- The next step of a call keeps the invariant. -/
theorem Inv.advance (hi : Inv s) (ok : Bool) : Inv (s.advance h ok) := by
  have hc := hi.claims h
  cases hpc : s.pc h with
  | idle =>
    simp only [Ownership.advance, hpc]
    exact hi
  | epm eid args =>
    simp only [Ownership.advance, hpc]
    rw [hpc] at hc
    exact hi.regionInit hpc (fun _ => rfl) (fun _ => rfl) (fun _ => rfl) (fun _ _ => trivial)
      (hc.keep rfl rfl (.refl _) trivial)
  | utm eid args region =>
    simp only [Ownership.advance, hpc]
    rw [hpc] at hc
    exact hi.regionInit hpc (fun _ => rfl) (fun _ => rfl) (fun _ => rfl) (fun _ _ => trivial)
      (hc.keep rfl rfl (.refl _) trivial)
  | setGlobal eid args region sharedRegion =>
    simp only [Ownership.advance, hpc]
    rw [hpc] at hc
    split
    all_goals exact hi.goto (hc.keep rfl rfl (.refl _) trivial)
  | metadata eid args region sharedRegion =>
    simp only [Ownership.advance, hpc]
    have hrest : ∀ i, 2 ≤ i → i < ENCLAVE_REGIONS_MAX →
        (((s.enclaves eid).create region sharedRegion args.params).regions i).type = .invalid := by
      intro i h2 hmax
      have h0 : i ≠ 0 := by omega
      have h1 : i ≠ 1 := by omega
      simpa [EnclaveCore.create, h0, h1] using hi.rest eid i h2 hmax
    split
    · refine hi.rewrite hpc (Or.inl rfl) _ rfl hrest rfl rfl rfl ?_
      show Names (Function.update s.enclaves eid _ eid) region sharedRegion
      rw [Function.update_self]
      exact ⟨rfl, rfl⟩
    · exact hi.rewrite hpc (Or.inl rfl) _ rfl hrest rfl rfl rfl trivial
  | measure eid region sharedRegion =>
    simp only [Ownership.advance, hpc]
    rw [hpc] at hc
    split
    · have halone := (hi.alone hpc (Or.inl rfl)).1
      have hne : region ≠ sharedRegion := by simpa [OwnPc.holds] using hc.nodup
      exact Inv.publish (s := s.goto h .idle) hi.drop pc_goto_self halone.unclaimed
        hc.relies hne (hc.held region (by simp [OwnPc.holds]))
        (hc.held sharedRegion (by simp [OwnPc.holds]))
    · exact hi.goto (hc.keep rfl rfl (.refl _) trivial)
  | unsetRegion eid region sharedRegion =>
    simp only [Ownership.advance, hpc]
    rw [hpc] at hc
    exact hi.goto (hc.keep rfl rfl (.refl _) trivial)
  | freeSharedRegion eid region sharedRegion =>
    simp only [Ownership.advance, hpc]
    exact hi.freeHeld hpc rfl rfl rfl fun _ => trivial
  | freeRegion eid region =>
    simp only [Ownership.advance, hpc]
    exact hi.freeHeld hpc rfl rfl rfl fun _ => trivial
  | freeEnclIdx eid =>
    simp only [Ownership.advance, hpc]
    exact hi.release hpc (Or.inl rfl)
  | scan eid i => exact hi.scan hpc ok
  | unsetEpm eid i rid =>
    simp only [Ownership.advance, hpc]
    rw [hpc] at hc
    exact hi.goto (hc.keep rfl rfl (.refl _) hc.relies)
  | freeEpm eid i rid =>
    simp only [Ownership.advance, hpc]
    rw [hpc] at hc
    obtain ⟨sharedRegion, h0, hnames, hne, hepm, hutm⟩ := hc.relies
    exact hi.freeOwned hpc rfl hepm rfl rfl rfl
      ⟨rid, sharedRegion, hnames, hne, nofun, (Function.update_of_ne hne.symm ..).trans hutm⟩
  | freeUtm eid =>
    rw [hpc] at hc
    obtain ⟨region, sharedRegion, hnames, hutm⟩ := hc.relies
    simp only [Ownership.advance, hpc, hnames.utmIndex, hnames.utm]
    exact hi.freeOwned hpc rfl hutm rfl rfl rfl trivial
  | wipe eid =>
    simp only [Ownership.advance, hpc]
    refine hi.rewrite hpc (Or.inr rfl) _ rfl (fun i h2 hmax => ?_) rfl rfl rfl trivial
    simp [EnclaveCore.clear, hmax]
  | release eid =>
    simp only [Ownership.advance, hpc]
    exact hi.release hpc (Or.inr rfl)

omit [DecidableEq H] in
/-- A destroy call that does not meet an unfinished enclave destroys a settled one. -/
theorem settled_of_destroyable (hidle : s.pc h = .idle) (hlt : eid < ENCL_MAX)
    (hdest : (s.enclaves eid).destroyable = true)
    (hmeet : s.meetsUnfinished (.destroy h eid) = false) : Settled (s.enclaves eid) := by
  simp only [meetsUnfinished, hidle, OwnPc.isIdle, hlt, decide_true, Bool.true_and,
    Bool.or_eq_false_iff, beq_eq_false_iff_ne, ne_eq] at hmeet
  refine ⟨fun hst => ?_, hmeet.1, hmeet.2⟩
  simp only [EnclaveCore.destroyable, EnclaveCore.present, hst] at hdest
  exact absurd hdest (by decide)

theorem step_create (h : H) (args : CreateArgs) :
    s.step (.create h args) = s ∨
      ∃ eid, s.freeEid = some eid ∧
        s.step (.create h args) = (s.setState eid .allocated).goto h (.epm eid args) := by
  simp only [Ownership.step]
  split
  · split
    · exact Or.inl rfl
    · split
      · next eid hfree => exact Or.inr ⟨eid, hfree, rfl⟩
      · exact Or.inl rfl
  · exact Or.inl rfl

theorem step_destroy (h : H) (eid : Nat) :
    s.step (.destroy h eid) = s ∨
      s.pc h = .idle ∧ eid < ENCL_MAX ∧ (s.enclaves eid).destroyable = true ∧
        s.step (.destroy h eid) = (s.setState eid .destroying).goto h (.scan eid 0) := by
  simp only [Ownership.step]
  split
  · next hidle =>
    split
    · next htest =>
      rw [Bool.and_eq_true, decide_eq_true_eq] at htest
      exact Or.inr ⟨hidle, htest.1, htest.2, rfl⟩
    · exact Or.inl rfl
  · exact Or.inl rfl

theorem Inv.step (hi : Inv s) {m : OwnMove H} (hm : s.meetsUnfinished m = false) :
    Inv (s.step m) := by
  cases m with
  | create h args =>
    rcases step_create h args with heq | ⟨eid, hfree, heq⟩ <;> rw [heq]
    · exact hi
    · exact hi.alloc hfree
  | destroy h eid =>
    rcases step_destroy h eid with heq | ⟨hidle, hlt, hdest, heq⟩ <;> rw [heq]
    · exact hi
    · exact hi.condemn (settled_of_destroyable hidle hlt hdest hm)
  | next h ok => exact hi.advance ok

/-! ## What a step changes -/

theorem enclaves_regionInit (start size : Word) (pri : PmpPriority) (next : Nat → OwnPc)
    (fail : OwnPc) : (s.regionInit h start size pri next fail).enclaves = s.enclaves := by
  unfold regionInit
  split <;> rfl

omit [DecidableEq H] in
theorem state_write {eid' : Nat} {en : EnclaveCore} (hst : en.state = (s.enclaves eid').state) :
    ((s.write eid' en).enclaves eid).state = (s.enclaves eid).state := by
  by_cases he : eid = eid'
  · subst he
    exact (congrArg EnclaveCore.state (Function.update_self ..)).trans hst
  · exact congrArg EnclaveCore.state (Function.update_of_ne he ..)

omit [DecidableEq H] in
theorem state_write_ne {eid' : Nat} {en : EnclaveCore} (hne : some eid' ≠ some eid) :
    ((s.write eid' en).enclaves eid).state = (s.enclaves eid).state :=
  congrArg EnclaveCore.state (Function.update_of_ne (fun he => hne (congrArg some he.symm)) ..)

/-- Only the call that makes an enclave and the end of a destroy call change its state. -/
theorem state_advance (ok : Bool) (hcr : (s.pc h).creates ≠ some eid)
    (hrel : s.pc h ≠ .release eid) :
    ((s.advance h ok).enclaves eid).state = (s.enclaves eid).state := by
  cases hpc : s.pc h <;> rw [hpc] at hcr hrel <;> simp only [advance, hpc]
  case epm => rw [enclaves_regionInit]
  case utm => rw [enclaves_regionInit]
  case setGlobal => split <;> rfl
  case metadata => exact state_write rfl
  case measure =>
    split
    · exact state_write_ne hcr
    · rfl
  case freeEnclIdx => exact state_write_ne hcr
  case scan =>
    split
    · split <;> rfl
    · rfl
  case freeUtm => split <;> rfl
  case wipe => exact state_write rfl
  case release =>
    refine state_write_ne fun he => hrel ?_
    rw [Option.some.inj he]
  all_goals rfl

/-- An enclave becomes `INVALID` by the call that makes it or by the end of a destroy call. -/
theorem release_of_invalid (hi : Inv s) {m : OwnMove H} (hne : (s.enclaves eid).state ≠ .invalid)
    (hal : (s.enclaves eid).state ≠ .allocated)
    (hinv : ((s.step m).enclaves eid).state = .invalid) : s.pc m.hart = .release eid := by
  have hset : ∀ {eid' st}, st ≠ EnclaveState.invalid →
      ((s.setState eid' st).enclaves eid).state ≠ .invalid := by
    intro eid' st hst
    by_cases he : eid = eid'
    · rw [he, enclaves_setState]
      exact hst
    · rw [setState, state_write_ne (by simpa using Ne.symm he)]
      exact hne
  cases m with
  | create h args =>
    rcases step_create h args with heq | ⟨eid', _, heq⟩ <;> rw [heq] at hinv
    · exact absurd hinv hne
    · exact absurd hinv (hset (by decide))
  | destroy h eid' =>
    rcases step_destroy h eid' with heq | ⟨_, _, _, heq⟩ <;> rw [heq] at hinv
    · exact absurd hinv hne
    · exact absurd hinv (hset (by decide))
  | next h ok =>
    by_contra hrel
    refine hne ((state_advance ok (fun hcr => ?_) hrel).symm.trans hinv)
    exact hal ((hi.claims h).making eid hcr).1

theorem pc_regionInit (start size : Word) (pri : PmpPriority) (next : Nat → OwnPc) (fail : OwnPc)
    {k : H} (hk : k ≠ h) : (s.regionInit h start size pri next fail).pc k = s.pc k := by
  unfold regionInit
  split <;> exact Function.update_of_ne hk ..

/-- A step leaves the calls of other harts where they are. -/
theorem pc_step (m : OwnMove H) {k : H} (hk : k ≠ m.hart) : (s.step m).pc k = s.pc k := by
  have hgoto : ∀ {s' : Ownership H} {pc}, s'.pc = s.pc → (s'.goto m.hart pc).pc k = s.pc k := by
    intro s' pc hs
    rw [pc_goto, if_neg hk, hs]
  cases m with
  | create h args =>
    rcases step_create h args with heq | ⟨eid, _, heq⟩ <;> rw [heq]
    exact hgoto rfl
  | destroy h eid =>
    rcases step_destroy h eid with heq | ⟨_, _, _, heq⟩ <;> rw [heq]
    exact hgoto rfl
  | next h ok =>
    simp only [Ownership.step]
    cases hpc : s.pc h <;> simp only [advance, hpc]
    case epm => exact pc_regionInit _ _ _ _ _ hk
    case utm => exact pc_regionInit _ _ _ _ _ hk
    case setGlobal => split <;> exact hgoto rfl
    case measure => split <;> exact hgoto rfl
    case scan =>
      split
      · split <;> exact hgoto rfl
      · exact hgoto rfl
    case freeUtm => split <;> exact hgoto rfl
    all_goals exact hgoto rfl

/-! ## The calls respect each other -/

/-- What a call or an enclave owns can be freed, and is then gone. -/
theorem Inv.frees (hi : Inv s) {rid : Nat} {o : Owner H} (ho : s.owner rid = some o) (pc : OwnPc) :
    s.owner rid = some o ∧ s.table.isPmpRegionValid rid = true ∧
      ((s.regionFree rid).goto h pc).table.isPmpRegionValid rid = false := by
  have hv := hi.defined rid o ho
  refine ⟨ho, hv, ?_⟩
  show (s.table.pmpRegionFree rid).1.isPmpRegionValid rid = false
  rw [(pmpRegionFree_removes hv).valid]
  simp

theorem Inv.freeing (hi : Inv s) {m : OwnMove H} {rid : Nat} {o : Owner H}
    (hf : s.frees m = some (rid, o)) :
    s.owner rid = some o ∧ s.table.isPmpRegionValid rid = true ∧
      (s.step m).table.isPmpRegionValid rid = false := by
  cases m with
  | create h args => cases hf
  | destroy h eid => cases hf
  | next h ok =>
    have hc := hi.claims h
    cases hpc : s.pc h <;> rw [hpc] at hc <;>
      simp only [Ownership.frees, hpc, reduceCtorEq, Option.some.injEq, Prod.mk.injEq] at hf <;>
      simp only [Ownership.step, Ownership.advance, hpc]
    case freeSharedRegion eid region sharedRegion =>
      obtain ⟨rfl, rfl⟩ := hf
      exact hi.frees (hc.held _ (by simp [OwnPc.holds])) _
    case freeRegion eid region =>
      obtain ⟨rfl, rfl⟩ := hf
      exact hi.frees (hc.held _ (by simp [OwnPc.holds])) _
    case freeEpm eid i rid' =>
      obtain ⟨rfl, rfl⟩ := hf
      obtain ⟨_, _, _, _, hepm, _⟩ := hc.relies
      exact hi.frees hepm _
    case freeUtm eid =>
      obtain ⟨region, sharedRegion, hnames, hutm⟩ := hc.relies
      simp only [hnames.utmIndex, hnames.utm, Option.map_some, Option.some.injEq,
        Prod.mk.injEq] at hf ⊢
      obtain ⟨rfl, rfl⟩ := hf
      exact hi.frees hutm _

theorem Inv.respects (hi : Inv s) {m : OwnMove H} (hm : s.meetsUnfinished m = false) :
    Respects s m := by
  refine ⟨fun h eid hcr hk => ?_, fun eid hne hal hinv => release_of_invalid hi hne hal hinv,
    fun rid o hf => hi.freeing hf⟩
  -- the call that makes the enclave is where it was, and what it claims still holds
  have hcr' : ((s.step m).pc h).creates = some eid := by
    rw [pc_step m hk.symm]
    exact hcr
  obtain ⟨hst, halone⟩ := ((hi.step hm).claims h).making eid hcr'
  exact ⟨hst.trans ((hi.claims h).making eid hcr).1.symm, (halone m.hart hk).1⟩

/-- Whatever the order of the steps of create and destroy calls, they leave each other's enclaves
and regions alone, provided that no destroy call finds an enclave that is still being made or
already being taken apart. -/
theorem calls_respect_owners (ms : List (OwnMove H))
    (hms : StepsOk step (fun s m => s.meetsUnfinished m = false) boot ms) :
    StepsOk step Respects (boot : Ownership H) ms :=
  stepsOk_of_inv (fun _ _ hi hm => hi.step hm) (fun _ _ hi hm => hi.respects hm) ms inv_boot hms

/-- A create call for four pages at `0x90000000`. -/
def fourPages : CreateArgs :=
  ⟨0x90000000, 0x4000, 0xa0000000, 0x1000, 0x90000000, 0x90001000, 0x90002000, 0⟩

/-- Hart 0 makes enclave 0. -/
def createMoves : List (OwnMove (Fin 2)) :=
  .create 0 fourPages :: List.replicate 5 (.next 0 true)

/-- Hart 1 destroys the enclave that hart 0 is still making; and when both destroy it, hart 1 frees
a region that hart 0 has freed before. -/
theorem destroy_takes_unfinished :
    ¬ Respects (run step boot [.create (0 : Fin 2) fourPages]) (.destroy 1 0) ∧
      ¬ Respects (run step boot (createMoves ++ [.destroy 0 0, .destroy 1 0, .next 0 true,
        .next 1 true, .next 0 true, .next 1 true, .next 0 true])) (.next 1 true) := by
  constructor
  · intro hr
    exact absurd (hr.making 0 0 (by decide) (by decide)).1 (by decide)
  · intro hr
    exact absurd (hr.freeing 6 (.enclave 0) (by decide +kernel)).1 (by decide +kernel)

/-- Hart 0 makes an enclave, while hart 1 asks for memory that overlaps with it, and destroys it. -/
theorem calls_respect_owners_overlap :
    StepsOk step Respects (boot : Ownership (Fin 2))
      ([.create 0 fourPages, .create 1 fourPages, .next 0 true, .next 1 true, .next 1 true] ++
        List.replicate 4 (.next 0 true) ++ .destroy 1 0 :: List.replicate 14 (.next 1 true)) := by
  refine calls_respect_owners _ ?_
  decide +kernel

/-! ## Calls that are not interrupted

The steps of one call in a row change the tables as the whole call does, when no enclave is running
that an IPI would stop. -/

/-- The two tables agree with those of the abstract monitor. -/
structure Matches (s : Ownership H) (c : Core) : Prop where
  table : s.table = c.table
  enclaves : s.enclaves = c.enclaves

/-- When hart `k` goes on alone, its call ends with the tables of `c`. -/
def Finishes (k : H) (s : Ownership H) (c : Core) : Prop :=
  ∃ n, (run step s (List.replicate n (.next k true))).pc k = .idle ∧
    Matches (run step s (List.replicate n (.next k true))) c

variable {c : Core} {k : H}

theorem Finishes.of_idle (hidle : s.pc k = .idle) (hm : Matches s c) : Finishes k s c :=
  ⟨0, hidle, hm⟩

theorem Finishes.next (hf : Finishes k (s.advance k true) c) : Finishes k s c := by
  obtain ⟨n, hidle, hm⟩ := hf
  exact ⟨n + 1, hidle, hm⟩

omit [DecidableEq H] in
theorem Matches.write (hm : Matches s c) (eid : Nat) (en : EnclaveCore) :
    Matches (s.write eid en) (c.setEnclave eid en) := by
  refine ⟨hm.table, ?_⟩
  funext e
  simp only [Ownership.write, Core.setEnclave, Function.update_apply, hm.enclaves]

omit [DecidableEq H] in
theorem Matches.setState (hm : Matches s c) (eid : Nat) (st : EnclaveState) :
    Matches (s.setState eid st) (c.setState eid st) := by
  unfold Ownership.setState Core.setState
  rw [hm.enclaves]
  exact hm.write ..

omit [DecidableEq H] in
theorem Matches.regionFree (hm : Matches s c) (rid : Nat) :
    Matches (s.regionFree rid) (c.regionFree rid) :=
  ⟨by simp [Ownership.regionFree, Core.regionFree, Core.setTable, hm.table], hm.enclaves⟩

theorem Finishes.freeEnclIdx (hpc : s.pc k = .freeEnclIdx eid)
    (hm : Matches (s.setState eid .invalid) c) : Finishes k s c := by
  refine .next ?_
  simp only [advance, hpc]
  exact .of_idle pc_goto_self ⟨hm.table, hm.enclaves⟩

/-- The last steps of a create call that has its regions. -/
theorem Finishes.setGlobal (hno : c.NoneRunning) (hm : Matches s c) {args : CreateArgs}
    {region sharedRegion : Nat} (hpc : s.pc k = .setGlobal eid args region sharedRegion)
    (hv : s.table.isPmpRegionValid region = true) (h : HartId) :
    Finishes k s (c.build h eid region sharedRegion args.params) := by
  rw [Core.build_eq hno]
  refine .next ?_
  simp only [advance, hpc, hv, if_true]
  refine .next ?_
  simp only [advance, pc_goto, if_true]
  refine .next ?_
  simp only [advance, pc_goto, if_true]
  refine .of_idle pc_goto_self ⟨hm.table, ?_⟩
  funext e
  by_cases he : e = eid
  · subst he
    simp [Ownership.goto, publish, Ownership.setState, Ownership.write, hm.enclaves]
  · simp [Ownership.goto, publish, Ownership.setState, Ownership.write, hm.enclaves, he]

/-- A create call that has the region of its EPM. -/
theorem Finishes.utm (hno : (c.setState eid .allocated).NoneRunning) {args : CreateArgs}
    {region : Nat} (hpc : s.pc k = .utm eid args region)
    (hen : s.enclaves = (c.setState eid .allocated).enclaves)
    (hundo : (s.setState eid .invalid).enclaves = c.enclaves)
    (hv : s.table.isPmpRegionValid region = true) (h : HartId) :
    Finishes k s (match s.table.pmpRegionInit args.utmPaddr args.utmSize .bottom false with
      | (_, .error _) => c.setTable (s.table.pmpRegionFree region).1
      | (t, .ok sharedRegion) =>
        ((c.setState eid .allocated).setTable t).build h eid region sharedRegion args.params) := by
  refine .next ?_
  simp only [advance, hpc, regionInit]
  rcases hutm : s.table.pmpRegionInit args.utmPaddr args.utmSize .bottom false with ⟨t, e | shared⟩
  · -- no room for the UTM: the region of the EPM is released again
    obtain rfl := pmpRegionInit_error hutm
    refine .next ?_
    simp only [advance, pc_goto, if_true]
    exact .freeEnclIdx pc_goto_self ⟨rfl, hundo⟩
  · obtain ⟨r, hinit⟩ := pmpRegionInit_ok hutm
    refine .setGlobal (c := (c.setState eid .allocated).setTable t) hno ?_ pc_goto_self ?_ h
    · exact ⟨rfl, hen⟩
    show t.isPmpRegionValid region = true
    rw [hinit.adds.valid, hv]
    rfl

theorem createEnclave_alone (hno : c.NoneRunning) (hm : Matches s c) (hidle : s.pc k = .idle)
    (h : HartId) (args : CreateArgs) :
    Finishes k (s.step (.create k args)) (c.createEnclave h args) := by
  have halloc : c.allocEid = s.freeEid := by
    unfold Core.allocEid freeEid
    rw [hm.enclaves]
  simp only [step, Core.createEnclave, hidle, halloc]
  split
  · exact .of_idle hidle hm
  cases hfree : s.freeEid with
  | none => exact .of_idle hidle hm
  | some eid =>
    have hst : (c.enclaves eid).state = .invalid := by
      rw [← hm.enclaves]
      simpa using List.find?_some hfree
    have hm1 : Matches (s.setState eid .allocated) (c.setState eid .allocated) := hm.setState ..
    -- releasing the id undoes its allocation
    have hundo : ((s.setState eid .allocated).setState eid .invalid).enclaves = c.enclaves := by
      rw [(hm1.setState eid .invalid).enclaves, c.setState_alloc_free hst]
    have htable : ((s.setState eid .allocated).goto k (.epm eid args)).table = c.table := hm.table
    refine .next ?_
    simp only [advance, pc_goto, if_true, regionInit, htable]
    rcases hepm : c.table.pmpRegionInit args.epmPaddr args.epmSize .any false with ⟨t, e | region⟩
    · -- no room for the EPM
      obtain rfl := pmpRegionInit_error hepm
      exact .freeEnclIdx pc_goto_self ⟨rfl, hundo⟩
    · obtain ⟨r, hinit⟩ := pmpRegionInit_ok hepm
      refine Finishes.utm (hno.setState (by decide)) pc_goto_self ?_ ?_ ?_ h
      · exact hm1.enclaves
      · exact hundo
      show t.isPmpRegionValid region = true
      rw [hinit.adds.valid]
      simp

/-- The loop over the regions, from round `i` on. -/
theorem Finishes.scan {c' : Core} (h : HartId) :
    ∀ (n i : Nat) {s : Ownership H} {c : Core}, i + n = ENCLAVE_REGIONS_MAX → c.NoneRunning →
      Matches s c → s.pc k = .scan eid i →
      (∀ s' : Ownership H, s'.pc k = .freeUtm eid →
        Matches s' ((List.range' i n).foldl (fun c i => c.destroyRegion h eid i) c) →
        Finishes k s' c') → Finishes k s c' := by
  intro n
  induction n with
  | zero =>
    intro i s c hin hno hm hpc hend
    refine .next ?_
    simp only [advance, hpc]
    rw [if_neg (by omega)]
    exact hend _ pc_goto_self ⟨hm.table, hm.enclaves⟩
  | succ n ih =>
    intro i s c hin hno hm hpc hend
    have hlt : i < ENCLAVE_REGIONS_MAX := by omega
    have hen : (c.destroyRegion h eid i).enclaves = c.enclaves := Core.enclaves_destroyRegion hno
    have hno' : (c.destroyRegion h eid i).NoneRunning := by
      unfold Core.NoneRunning
      rw [hen]
      exact hno
    rw [List.range'_succ, List.foldl_cons] at hend
    refine .next ?_
    simp only [advance, hpc, if_pos hlt, hm.enclaves]
    split
    · next hskip =>
      refine ih (i + 1) (by omega) hno' ?_ pc_goto_self hend
      rw [Core.destroyRegion_skip hskip]
      exact ⟨hm.table, hm.enclaves⟩
    · next hepm =>
      refine .next ?_
      simp only [advance, pc_goto, if_true]
      refine .next ?_
      simp only [advance, pc_goto, if_true]
      refine ih (i + 1) (by omega) hno' ⟨?_, hm.enclaves.trans hen.symm⟩
        pc_goto_self hend
      rw [Core.table_destroyRegion hno, if_neg hepm]
      simp [Ownership.goto, Ownership.regionFree, hm.table]

/-- The release of the shared region. -/
theorem Finishes.freeUtm {c' : Core} (hpc : s.pc k = .freeUtm eid) (hm : Matches s c)
    (hend : ∀ s' : Ownership H, s'.pc k = .wipe eid → Matches s' (c.destroyShared eid) →
      Finishes k s' c') : Finishes k s c' := by
  refine .next ?_
  have hutm : s.utmIndex eid = (List.range ENCLAVE_REGIONS_MAX).find? fun i =>
      ((c.enclaves eid).regions i).type == .utm := by
    unfold Ownership.utmIndex
    rw [hm.enclaves]
  unfold Core.destroyShared at hend
  rw [← hutm] at hend
  simp only [advance, hpc]
  cases hi : s.utmIndex eid with
  | some i =>
    rw [hi] at hend
    have hfree := hm.regionFree ((s.enclaves eid).regions i).pmpRid
    refine hend _ pc_goto_self ⟨hfree.table.trans ?_, hm.enclaves⟩
    rw [hm.enclaves]
  | none =>
    rw [hi] at hend
    exact hend _ pc_goto_self ⟨hm.table, hm.enclaves⟩

theorem Finishes.wipe (hpc : s.pc k = .wipe eid) (hm : Matches s c) (h : HartId) :
    Finishes k s (((c.setEnclave eid (c.enclaves eid).clear).setState eid .invalid).osmPmpSet h
      EPMP_SU_RWX) := by
  refine .next ?_
  simp only [advance, hpc]
  refine .next ?_
  simp only [advance, pc_goto, if_true]
  have hm' := (hm.write eid (s.enclaves eid).clear).setState eid .invalid
  rw [hm.enclaves] at hm' ⊢
  exact .of_idle pc_goto_self ⟨hm'.table, hm'.enclaves⟩

theorem destroyCall_alone (hno : c.NoneRunning) (hm : Matches s c) (hidle : s.pc k = .idle)
    (h : HartId) (eid : Nat) :
    Finishes k (s.step (.destroy k eid)) (c.destroyCall h eid) := by
  simp only [step, Core.destroyCall, hidle, hm.enclaves]
  split
  · have hm1 : Matches (s.setState eid .destroying) (c.setState eid .destroying) := hm.setState ..
    refine Finishes.scan h ENCLAVE_REGIONS_MAX 0 (Nat.zero_add _) (hno.setState (by decide))
      ⟨hm1.table, hm1.enclaves⟩ pc_goto_self ?_
    intro s' hpc hm2
    rw [← List.range_eq_range'] at hm2
    change Matches s' ((c.setState eid .destroying).destroyRegions h eid) at hm2
    generalize (c.setState eid .destroying).destroyRegions h eid = c1 at hm2 ⊢
    exact .freeUtm hpc hm2 fun s' hpc' hm3 => .wipe hpc' hm3 h
  · exact .of_idle hidle hm

end Ownership

end Dorami.Sm
