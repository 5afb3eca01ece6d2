import Dorami.Concurrent.Barrier
import Dorami.Concurrent.Proofs.MailboxProofs
import Dorami.Concurrent.Proofs.OwnershipProofs
import Dorami.Sm.Proofs.BootProofs

/-!
# No two harts wait for each other

A call sends IPIs only while it, or the enclave it takes apart, owns two regions. Boot leaves two of
the eight regions, so at most one hart is in `mon_send_sync_ipi`.
-/

namespace Dorami.Sm

open Riscv Lib

/-- The call has come to `pmp_set_global` or `pmp_unset_global`. -/
def OwnPc.syncs : OwnPc → Bool
  | .setGlobal _ _ _ _ | .unsetRegion _ _ _ | .unsetEpm _ _ _ => true
  | _ => false

namespace Ownership

variable {H : Type*} [DecidableEq H] {s : Ownership H} {h k : H}

/-! ## The regions the calls compete for -/

/-- The regions of the boot are still there, and nobody owns any other region than the last two. -/
structure Reserved (s : Ownership H) : Prop where
  valid : ∀ rid, rid < 6 → s.table.isPmpRegionValid rid = true
  owned : ∀ rid o, s.owner rid = some o → rid = 6 ∨ rid = 7

omit [DecidableEq H] in
theorem reserved_boot : Reserved (boot : Ownership H) where
  valid rid hrid := (bootTable_valid rid).mpr hrid
  owned _ _ ho := nomatch ho

theorem Reserved.regionInit (hr : Reserved s) (start size : Word) (pri : PmpPriority)
    (next : Nat → OwnPc) (fail : OwnPc) : Reserved (s.regionInit h start size pri next fail) := by
  unfold Ownership.regionInit
  split
  · next t rid heq =>
    obtain ⟨r, hinit⟩ := pmpRegionInit_ok heq
    obtain ⟨hlt, hfree, _⟩ := getFreeRegionIdx_spec hinit.slot
    refine ⟨fun j hj => ?_, fun j o ho => ?_⟩
    · show t.isPmpRegionValid j = true
      rw [hinit.adds.valid, hr.valid j hj]
      rfl
    · by_cases hj : j = rid
      · have hge : ¬ rid < 6 := fun hlt6 => by
          rw [hr.valid rid hlt6] at hfree
          cases hfree
        omega
      · exact hr.owned j o ((Function.update_of_ne hj ..).symm.trans ho)
  · next t e heq =>
    obtain rfl := pmpRegionInit_error heq
    exact ⟨hr.valid, hr.owned⟩

theorem Reserved.regionFree (hr : Reserved s) {rid : Nat} {o : Owner H} (hi : Inv s)
    (ho : s.owner rid = some o) (pc : OwnPc) : Reserved ((s.regionFree rid).goto h pc) := by
  refine ⟨fun j hj => ?_, fun j o' hj => ?_⟩
  · have hne : j ≠ rid := by
      rintro rfl
      rcases hr.owned j o ho with rfl | rfl <;> omega
    show (s.table.pmpRegionFree rid).1.isPmpRegionValid j = true
    rw [(pmpRegionFree_removes (hi.defined rid o ho)).valid, hr.valid j hj]
    simpa using hne
  · by_cases hne : j = rid
    · exact hne ▸ hr.owned rid o ho
    · exact hr.owned j o' ((Function.update_of_ne hne ..).symm.trans hj)

/-- The next step of a call. -/
theorem Reserved.advance (hr : Reserved s) (hi : Inv s) (ok : Bool) :
    Reserved (s.advance h ok) := by
  have hc := hi.claims h
  cases hpc : s.pc h <;> rw [hpc] at hc <;> simp only [Ownership.advance, hpc]
  case epm => exact hr.regionInit ..
  case utm => exact hr.regionInit ..
  case setGlobal => split <;> exact ⟨hr.valid, hr.owned⟩
  case measure eid region sharedRegion =>
    split
    · refine ⟨hr.valid, fun j o ho => ?_⟩
      have hheld : ∀ rid ∈ [region, sharedRegion], rid = 6 ∨ rid = 7 :=
        fun rid hrid => hr.owned rid _ (hc.held rid hrid)
      by_cases hj : j ∈ [region, sharedRegion]
      · exact hheld j hj
      · simp only [List.mem_cons, List.not_mem_nil, or_false, not_or] at hj
        have hkeep : (s.publish eid region sharedRegion).owner j = s.owner j :=
          (Function.update_of_ne hj.2 ..).trans (Function.update_of_ne hj.1 ..)
        exact hr.owned j o (hkeep.symm.trans ho)
    · exact ⟨hr.valid, hr.owned⟩
  case freeSharedRegion => exact hr.regionFree hi (hc.held _ (by simp [OwnPc.holds])) _
  case freeRegion => exact hr.regionFree hi (hc.held _ (by simp [OwnPc.holds])) _
  case scan =>
    split
    · split <;> exact ⟨hr.valid, hr.owned⟩
    · exact ⟨hr.valid, hr.owned⟩
  case freeEpm =>
    obtain ⟨_, _, _, _, hepm, _⟩ := hc.relies
    exact hr.regionFree hi hepm _
  case freeUtm =>
    obtain ⟨region, sharedRegion, hnames, hutm⟩ := hc.relies
    simp only [hnames.utmIndex, hnames.utm]
    exact hr.regionFree hi hutm _
  all_goals exact ⟨hr.valid, hr.owned⟩

theorem Reserved.step (hr : Reserved s) (hi : Inv s) (m : OwnMove H) : Reserved (s.step m) := by
  cases m with
  | create h args =>
    rcases step_create h args with heq | ⟨eid, _, heq⟩ <;> rw [heq]
    · exact hr
    · exact ⟨hr.valid, hr.owned⟩
  | destroy h eid =>
    rcases step_destroy h eid with heq | ⟨_, _, _, heq⟩ <;> rw [heq]
    · exact hr
    · exact ⟨hr.valid, hr.owned⟩
  | next h ok => exact hr.advance hi ok

omit [DecidableEq H] in
/-- Whose regions the call sends IPIs about. -/
theorem Inv.syncs_owns (hi : Inv s) (hs : (s.pc h).syncs = true) : ∃ o a b,
    (o = .call h ∨ ∃ eid, o = .enclave eid ∧ (s.pc h).destroys = some eid) ∧ a ≠ b ∧
      s.owner a = some o ∧ s.owner b = some o := by
  have hc := hi.claims h
  cases hpc : s.pc h <;> rw [hpc] at hc hs <;> try cases hs
  case setGlobal eid args region sharedRegion =>
    have hne : region ≠ sharedRegion := by simpa [OwnPc.holds] using hc.nodup
    exact ⟨_, region, sharedRegion, .inl rfl, hne, hc.held _ (by simp [OwnPc.holds]),
      hc.held _ (by simp [OwnPc.holds])⟩
  case unsetRegion eid region sharedRegion =>
    have hne : region ≠ sharedRegion := by simpa [OwnPc.holds] using hc.nodup
    exact ⟨_, region, sharedRegion, .inl rfl, hne, hc.held _ (by simp [OwnPc.holds]),
      hc.held _ (by simp [OwnPc.holds])⟩
  case unsetEpm eid i rid =>
    obtain ⟨sharedRegion, _, _, hne, hepm, hutm⟩ := hc.relies
    exact ⟨_, rid, sharedRegion, .inr ⟨eid, rfl, rfl⟩, hne, hepm, hutm⟩

/-- Only one call at a time sends IPIs. -/
theorem Inv.syncs_unique (hi : Inv s) (hr : Reserved s) (hh : (s.pc h).syncs = true)
    (hk : (s.pc k).syncs = true) : h = k := by
  obtain ⟨o, a, b, ho, hab, ha, hb⟩ := hi.syncs_owns hh
  obtain ⟨o', a', b', ho', hab', ha', hb'⟩ := hi.syncs_owns hk
  -- each of them owns regions 6 and 7
  have hsix : ∀ {o : Owner H} {a b : Nat}, a ≠ b → s.owner a = some o → s.owner b = some o →
      s.owner 6 = some o := by
    intro o a b hab ha hb
    rcases hr.owned a o ha with rfl | rfl
    · exact ha
    · rcases hr.owned b o hb with rfl | rfl
      · exact hb
      · exact absurd rfl hab
  obtain rfl : o = o' := Option.some.inj ((hsix hab ha hb).symm.trans (hsix hab' ha' hb'))
  rcases ho with rfl | ⟨eid, rfl, hd⟩
  · rcases ho' with he | ⟨eid, he, _⟩
    · exact Owner.call.inj he
    · cases he
  · rcases ho' with he | ⟨eid', he, hd'⟩
    · cases he
    · obtain rfl := Owner.enclave.inj he
      by_contra hne
      exact (((hi.claims h).ending eid hd).2 k (Ne.symm hne)).2 hd'

/-- While a call sends IPIs its region stays defined, so the barrier is the step `Ownership` has for
it. -/
theorem synced_eq (hi : Inv s) (hs : (s.pc h).syncs = true) : s.synced h = s.advance h true := by
  have hc := hi.claims h
  cases hpc : s.pc h <;> rw [hpc] at hc hs <;> try cases hs
  case setGlobal eid args region sharedRegion =>
    have hv := hi.defined region _ (hc.held region (by simp [OwnPc.holds]))
    simp only [synced, Ownership.advance, hpc, hv, if_true]
  case unsetRegion => simp only [synced, Ownership.advance, hpc]
  case unsetEpm => simp only [synced, Ownership.advance, hpc]

omit [DecidableEq H] in
theorem syncs_of_sends {r : IpiRequest} (hr : s.sends h = some r) : (s.pc h).syncs = true := by
  unfold sends at hr
  cases hpc : s.pc h <;> rw [hpc] at hr <;> first | rfl | cases hr

omit [DecidableEq H] in
/-- An enclave that no call is making or taking apart is entered or left. -/
theorem Inv.update (hi : Inv s) {eid : Nat} {en : EnclaveCore} (hold : Settled (s.enclaves eid))
    (hregions : en.regions = (s.enclaves eid).regions) : Inv (s.write eid en) := by
  have hother : ∀ {eid'}, eid' ≠ eid → (s.write eid en).enclaves eid' = s.enclaves eid' :=
    fun hne => Function.update_of_ne hne ..
  have hself : (s.write eid en).enclaves eid = en := Function.update_self ..
  have hreg : ∀ eid', ((s.write eid en).enclaves eid').regions = (s.enclaves eid').regions := by
    intro eid'
    by_cases he : eid' = eid
    · rw [he, hself, hregions]
    · rw [hother he]
  refine ⟨fun k => (hi.claims k).mono rfl (fun eid' hk => hother ?_) (fun _ _ => rfl)
    fun _ _ _ ho => ho, hi.defined, fun eid' i h2 hi8 => ?_, fun eid' hs => ?_⟩
  · rintro rfl
    exact hk.elim (fun hm => hold.2.1 ((hi.claims k).making eid' hm).1)
      fun hm => hold.2.2 ((hi.claims k).ending eid' hm).1
  · rw [hreg]
    exact hi.rest eid' i h2 hi8
  · have hold' : Settled (s.enclaves eid') := by
      by_cases he : eid' = eid
      · exact he ▸ hold
      · rwa [hother he] at hs
    obtain ⟨region, sharedRegion, hnames, hne, hepm, hutm⟩ := hi.settled eid' hold'
    refine ⟨region, sharedRegion, ⟨?_, ?_⟩, hne, hepm, hutm⟩
    · rw [hreg]
      exact hnames.epm
    · rw [hreg]
      exact hnames.utm

theorem settled_of_enterable {en : EnclaveCore} {first : Bool} (hen : en.enterable first = true) :
    Settled en := by
  unfold EnclaveCore.enterable EnclaveCore.runable EnclaveCore.resumable at hen
  unfold Settled
  cases hst : en.state <;> cases first <;> simp_all

theorem settled_of_stoppable {en : EnclaveCore} (hen : en.stoppable = true) : Settled en := by
  have hst : en.state = .running := by simpa [EnclaveCore.stoppable] using hen
  unfold Settled
  rw [hst]
  simp

end Ownership

namespace Mailboxes

variable {s : Mailboxes} {h k : HartId}

theorem pc_monIpiCheck (i : Fin 5) (p : RecvPc) :
    ∃ pc, Checks pc ∧ (s.monIpiCheck h i p).pc = Function.update s.pc h pc := by
  have hnext : ∃ pc, Checks pc ∧ (s.nextSlot h i).pc = Function.update s.pc h pc :=
    ⟨_, checks_afterSlot i, rfl⟩
  cases p <;> dsimp only [monIpiCheck]
  case valid =>
    split_ifs
    · exact ⟨_, checks_check _ _, rfl⟩
    · exact hnext
  case ready =>
    split_ifs
    · exact hnext
    · exact ⟨_, checks_check _ _, rfl⟩
  case ack => exact hnext
  all_goals exact ⟨_, checks_check _ _, rfl⟩

/-- An access moves its hart only, and does not take it into `mon_send_sync_ipi`. -/
theorem pc_advance (s : Mailboxes) (h : HartId) :
    ∃ pc, (s.advance h).pc = Function.update s.pc h pc ∧
    (Checks (s.pc h) → Checks pc) := by
  unfold advance
  cases hpc : s.pc h with
  | su =>
    have hself := Function.update_eq_self h s.pc
    rw [hpc] at hself
    exact ⟨.su, hself.symm, id⟩
  | check i p =>
    obtain ⟨pc, hchecks, heq⟩ := pc_monIpiCheck (s := s) (h := h) i p
    exact ⟨pc, heq, fun _ => hchecks⟩
  | send r p =>
    refine ⟨(s.monSendSyncIpi h r p).pc h, ?_, fun hc => absurd rfl (hc r p)⟩
    cases p <;> simp [monSendSyncIpi, goto, write]

end Mailboxes

namespace Barrier

open Ownership

variable {s : Barrier} {h k : HartId}

/-- A hart in `mon_send_sync_ipi` is in a call that has come to a barrier. -/
structure Inv (s : Barrier) : Prop where
  own : s.own.Inv
  reserved : s.own.Reserved
  sending : ∀ h, Mailboxes.Checks (s.mail.pc h) ∨ (s.own.pc h).syncs = true

theorem inv_boot : Inv boot where
  own := Ownership.inv_boot
  reserved := reserved_boot
  sending _ := .inl nofun

/-- Two harts are never in `mon_send_sync_ipi` at once. -/
theorem Inv.no_mutual_wait (hi : Inv s) : ¬ s.MutualWait := by
  rintro ⟨h, k, hne, ⟨hh, _⟩, ⟨hk, _⟩⟩
  have hsync : ∀ g, (∃ r i, s.mail.pc g = .send r (.wait i) ∨ s.mail.pc g = .send r (.resend i)) →
      (s.own.pc g).syncs = true := by
    rintro g ⟨r, i, hpc⟩
    rcases hi.sending g with hc | hs
    · rcases hpc with hpc | hpc
      · exact absurd hpc (hc _ _)
      · exact absurd hpc (hc _ _)
    · exact hs
  exact hne (hi.own.syncs_unique hi.reserved (hsync h hh) (hsync k hk))

/-- A step of a call of a hart that is not in `mon_send_sync_ipi`. -/
theorem Inv.ownStep (hi : Inv s) {m : OwnMove HartId} (hm : s.own.meetsUnfinished m = false)
    (hsu : s.mail.pc m.hart = .su) : Inv { s with own := s.own.step m } := by
  refine ⟨hi.own.step hm, hi.reserved.step hi.own m, fun k => ?_⟩
  by_cases hk : k = m.hart
  · rw [hk, hsu]
    exact .inl nofun
  · dsimp only
    rw [pc_step m hk]
    exact hi.sending k

/-- An enclave is entered or left. -/
theorem Inv.locked (hi : Inv s) {eid : Nat} {test : EnclaveCore → Bool}
    {update : EnclaveCore → EnclaveCore} (htest : ∀ en, test en = true → Settled en)
    (hregions : ∀ en, (update en).regions = en.regions) : Inv (s.locked h eid test update) := by
  unfold Barrier.locked
  split_ifs with hok
  · simp only [Bool.and_eq_true] at hok
    exact ⟨hi.own.update (htest _ hok.2) (hregions _),
      ⟨hi.reserved.valid, hi.reserved.owned⟩, hi.sending⟩
  · exact hi

/-- An access of a hart to the mailboxes. -/
theorem Inv.mailStep (hi : Inv s) {pc : IpiPc} {mail : Mailboxes}
    (hpc : mail.pc = Function.update s.mail.pc h pc)
    (hsend : Mailboxes.Checks pc ∨ (s.own.pc h).syncs = true) : Inv { s with mail := mail } := by
  refine ⟨hi.own, hi.reserved, fun k => ?_⟩
  dsimp only
  rw [hpc]
  by_cases hk : k = h
  · subst hk
    rwa [Function.update_self]
  · rw [Function.update_of_ne hk]
    exact hi.sending k

theorem Inv.advance (hi : Inv s) (h : HartId) (ok : Bool) : Inv (s.advance h ok) := by
  have hnext : Inv { s with mail := s.mail.step (.next h) } := by
    obtain ⟨pc, hpc, hchecks⟩ := Mailboxes.pc_advance s.mail h
    exact hi.mailStep hpc ((hi.sending h).imp_left hchecks)
  unfold Barrier.advance
  split
  · next hsu =>
    split
    · next r hr =>
      have heq : (s.mail.step (.call h r)).pc = Function.update s.mail.pc h (.send r .perm) := by
        simp only [Mailboxes.step, hsu, if_true]
        rfl
      exact hi.mailStep heq (.inr (syncs_of_sends hr))
    · exact hi.ownStep (m := .next h ok) rfl hsu
  · next r hdone =>
    have hsync : (s.own.pc h).syncs = true := by
      rcases hi.sending h with hc | hs
      · exact absurd hdone (hc _ _)
      · exact hs
    rw [synced_eq hi.own hsync]
    have hpc : (s.mail.step (.next h)).pc = Function.update s.mail.pc h .su := by
      simp only [Mailboxes.step, Mailboxes.advance, hdone]
      rfl
    refine ⟨hi.own.advance true, hi.reserved.advance hi.own true, fun k => ?_⟩
    dsimp only
    rw [hpc]
    by_cases hk : k = h
    · subst hk
      rw [Function.update_self]
      exact .inl nofun
    · rw [Function.update_of_ne hk]
      have hown := pc_step (s := s.own) (.next h true) hk
      exact (hi.sending k).imp_right fun hs => hown.symm ▸ hs
  · exact hnext

theorem inv_step (s : Barrier) (m : BarrierMove) (hi : Inv s) (hm : s.meetsUnfinished m = false) :
    Inv (s.step m) := by
  have hsu : ∀ {h}, s.free h = true → s.mail.pc h = .su := by
    intro h hf
    simp only [free, Bool.and_eq_true, decide_eq_true_eq] at hf
    exact hf.2
  cases m with
  | create h args =>
    dsimp only [step]
    split_ifs with hf
    · exact hi.ownStep (m := .create h args) rfl (hsu hf)
    · exact hi
  | destroy h eid =>
    dsimp only [step]
    split_ifs with hf
    · simp only [meetsUnfinished, hf, Bool.true_and] at hm
      exact hi.ownStep hm (hsu hf)
    · exact hi
  | enter h eid first => exact hi.locked (fun _ => settled_of_enterable) fun _ => rfl
  | leave h eid => exact hi.locked (fun _ => settled_of_stoppable) fun _ => rfl
  | interrupt h =>
    dsimp only [step]
    split_ifs with hf
    · have heq : (s.mail.step (.interrupt h)).pc =
          Function.update s.mail.pc h (.check 0 .valid) := by
        simp only [Mailboxes.step, hsu hf, if_true]
        rfl
      exact hi.mailStep heq (.inl (Mailboxes.checks_check _ _))
    · exact hi
  | next h ok => exact hi.advance h ok

/-- In a run in which no destroy call finds an enclave that is still being made or already being
taken apart, no two harts wait for each other. -/
theorem no_mutual_wait_reachable (ms : List BarrierMove)
    (hms : StepsOk step (fun s m => s.meetsUnfinished m = false) boot ms) :
    Always step (fun s => ¬ s.MutualWait) boot ms :=
  always_of_inv inv_step (fun _ => Inv.no_mutual_wait) ms inv_boot hms

/-- The next `n` steps of hart `h`. -/
def nexts (n : Nat) (h : HartId) : List BarrierMove := List.replicate n (.next h true)

/-- Hart 0 makes enclave 0, and the other harts apply its update. -/
def creating : List BarrierMove :=
  .create 0 fourPages :: nexts 10 0 ++ (.interrupt 1 :: nexts 11 1) ++
    (.interrupt 2 :: nexts 11 2) ++ (.interrupt 3 :: nexts 11 3) ++ nexts 18 0

/-- A destroy call of hart `h` for it, up to the waiting loop. -/
def destroying (h : HartId) : List BarrierMove := .destroy h 0 :: nexts 9 h

/-- Harts 0 and 1 destroy the same enclave, and wait for each other. -/
theorem destroys_wait_for_each_other :
    (run step boot (creating ++ destroying 0 ++ destroying 1)).MutualWait := by
  refine ⟨0, 1, by decide, ⟨⟨⟨6, 1, 0⟩, 0, .inl ?_⟩, ?_⟩, ⟨⟨⟨6, 1, 0⟩, 0, .inl ?_⟩, ?_⟩⟩ <;>
    decide +kernel

/-- Hart 1 destroys the enclave that hart 0 has made, while hart 2 asks for memory. -/
theorem destroy_waits_alone :
    Always step (fun s => ¬ s.MutualWait) boot
        (creating ++ destroying 1 ++ .create 2 fourPages :: nexts 2 2) ∧
      (run step boot (creating ++ destroying 1 ++ .create 2 fourPages ::
          nexts 2 2)).WaitsFor 1 0 := by
  refine ⟨no_mutual_wait_reachable _ (by decide +kernel), ⟨⟨6, 1, 0⟩, 0, .inl ?_⟩, ?_⟩ <;>
    decide +kernel

end Barrier

end Dorami.Sm
