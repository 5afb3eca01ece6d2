import Dorami.Monitor.Frames
import Dorami.Monitor.Proofs.AssemblyProofs
import Dorami.Monitor.Proofs.DataProofs
import Dorami.Monitor.Proofs.ForwardProofs
import Dorami.Monitor.Proofs.HostCallProofs
import Dorami.Monitor.Proofs.StoreProofs

/-!
# OpenSBI is entered with its own `mscratch`

Every hart comes into S/U mode by a return of OpenSBI, which leaves the `mscratch` of OpenSBI in the
frame of the hart and in `OSBI_mscratch`. No trap changes either: the regions that create and
destroy calls clear keep off the monitor's data. So the member is still there when an enclave's trap
is handed on, unless a service, or S/U mode itself, has stored into the frame.
-/

namespace Dorami.Sm

open Riscv Lib

namespace Monitor

/-! ## The records of OpenSBI -/

/-- `OSBI_mscratch` and `SU_started` of every hart are the same. -/
def SameOsbi (m m' : Monitor) : Prop :=
  ∀ g, (m'.hart g).osbiMscratch = (m.hart g).osbiMscratch ∧
    (m'.hart g).suStarted = (m.hart g).suStarted

section Osbi

variable {g k : HartId} {m m₁ : Monitor}

theorem SameOsbi.refl : SameOsbi m m := fun _ => ⟨rfl, rfl⟩

variable (ho : SameOsbi m m₁)

include ho

theorem SameOsbi.setHart {hs : HartState} (hm : hs.osbiMscratch = (m₁.hart k).osbiMscratch)
    (hst : hs.suStarted = (m₁.hart k).suStarted) : SameOsbi m (m₁.setHart k hs) := by
  intro g
  by_cases hg : g = k
  · subst hg
    rw [hart_setHart_self, hm, hst]
    exact ho g
  · rw [hart_setHart_ne m₁ k hg]
    exact ho g

omit ho in
theorem SameOsbi.keeps (k : HartId) : KeepsTraps k (SameOsbi m) where
  enclave _ _ ho := ho
  mem _ ho := ho
  table _ ho := ho
  random _ ho := ho
  ocalls ho := ho
  hart hosbi ho := ho.setHart (congrArg Prod.fst hosbi) (congrArg Prod.snd hosbi)

theorem SameOsbi.setPmp (r : PmpRegs) : SameOsbi m (m₁.setPmp k r) := ho.setHart rfl rfl

theorem SameOsbi.serve (C : Crypto) (regs : TrapRegs) (env : Env) (req : Request) :
    SameOsbi m (m₁.serve C k regs env req).1 :=
  KeepsTraps.serve SameOsbi.keeps ho k (fun _ _ _ _ hm => hm) regs env

end Osbi

/-! ## Traps -/

section Traps

variable (C : Crypto) (m : Monitor) (h : HartId) (t : Trap)

theorem sameOsbi_arrive : SameOsbi m (m.arrive h t) := by
  refine SameOsbi.refl.setHart ?_ ?_
  · unfold arrived
    dsimp only
    split <;> rfl
  · exact congrArg HartCore.suStarted (toHartCore_arrived t (m.hart h))

theorem mscratch_ecallFrame (regs : TrapRegs) : (ecallFrame regs).mscratch = regs.mscratch := by
  unfold ecallFrame
  dsimp only
  refine List.foldlRecOn (motive := fun frame : TrapRegs => frame.mscratch =
    regs.mscratch) _ _ rfl ?_
  intro frame hframe i _
  exact hframe

theorem mem_sbiSmStopEnclave (regs : TrapRegs) (request : Word) :
    (m.sbiSmStopEnclave h regs request).1.mem = m.mem := mem_stopEnclave m h regs request _

/-- What a trap other than a Keystone call does to memory and to the records of OpenSBI, and with
which `mscratch` it is handed on. -/
structure PlainTrap (res : Monitor × Exit) : Prop where
  osbi : SameOsbi m res.1
  mem : res.1.mem = m.mem
  exit : ∀ regs, res.2 = .toOsbi regs →
    regs.mscratch = t.regs.mscratch ∨ regs.mscratch = (m.hart h).osbiMscratch

theorem plainTrap_enclave (hk : t.isKeystone = false) : PlainTrap m h t
    ((m.arrive h t).sbiTrapHandlerKeystoneEnclave C h t.mcause (frame t) t.env) := by
  have harr := sameOsbi_arrive m h t
  unfold sbiTrapHandlerKeystoneEnclave
  split
  · split
    · refine ⟨?_, ?_, fun regs hex => by cases hex⟩
      · exact (SameOsbi.keeps h).switches.sbiSmStopEnclave harr
          { frame t with mepc := (frame t).mepc - 4 } STOP_TIMER_INTERRUPT fun _ => Set.mem_univ _
      · exact mem_sbiSmStopEnclave (m.arrive h t) h { frame t with mepc := (frame t).mepc - 4 }
          STOP_TIMER_INTERRUPT
    · exact ⟨harr, rfl, fun regs hex => by cases hex⟩
  next hirq =>
  split
  · next hecall =>
    have ha7 : ¬ (frame t).a7 = SBI_EXT_EXPERIMENTAL_KEYSTONE_ENCLAVE := by
      intro ha7
      have ha7' : t.regs.a7 = SBI_EXT_EXPERIMENTAL_KEYSTONE_ENCLAVE := ha7
      simp [Trap.isKeystone, hirq, hecall, ha7'] at hk
    rw [if_neg ha7]
    refine ⟨harr.setHart rfl rfl, rfl, fun regs hex => Or.inl ?_⟩
    injection hex with hregs
    rw [← hregs, mscratch_ecallFrame]
    rfl
  · refine ⟨harr, rfl, fun regs hex => Or.inl ?_⟩
    injection hex with hregs
    rw [← hregs]
    rfl

theorem plainTrap_host (hk : t.isKeystone = false) : PlainTrap m h t
    ((m.arrive h t).monTrapHandlerHost C h t.mcause (frame t) t.env) := by
  have harr := sameOsbi_arrive m h t
  have hscratch : ∀ {r regs : TrapRegs}, Exit.toOsbi { r with
      mscratch := ((m.arrive h t).hart h).osbiMscratch } = .toOsbi regs →
        regs.mscratch = (m.hart h).osbiMscratch := by
    intro r regs hex
    injection hex with hregs
    rw [← hregs]
    exact (harr h).1
  unfold monTrapHandlerHost
  dsimp only
  split
  · split
    · exact ⟨harr, rfl, fun regs hex => Or.inr (hscratch hex)⟩
    · exact ⟨harr, rfl, fun regs hex => by cases hex⟩
  next hirq =>
  split
  · next hecall =>
    have ha7 : ¬ (frame t).a7 = SBI_EXT_EXPERIMENTAL_KEYSTONE_ENCLAVE := by
      intro ha7
      have ha7' : t.regs.a7 = SBI_EXT_EXPERIMENTAL_KEYSTONE_ENCLAVE := ha7
      simp [Trap.isKeystone, hirq, hecall, ha7'] at hk
    rw [if_neg ha7]
    exact ⟨harr.setHart rfl rfl, rfl, fun regs hex => Or.inr (hscratch hex)⟩
  · exact ⟨harr, rfl, fun regs hex => Or.inr (hscratch hex)⟩

theorem plainTrap_trapHandler (hk : t.isKeystone = false) :
    PlainTrap m h t (m.trapHandler C h t) := by
  rw [trapHandler_eq]
  split
  · exact plainTrap_enclave C m h t hk
  · exact plainTrap_host C m h t hk

theorem finish_not_toOsbi (res : Monitor × HandlerRes) (regs : TrapRegs) :
    (m.finish h t res).2 ≠ .toOsbi regs := by
  rcases res with ⟨m', _ | _⟩ <;> intro hex <;> cases hex

theorem fst_finish (res : Monitor × HandlerRes) : (m.finish h t res).1 = res.1 := by
  rcases res with ⟨m', _ | _⟩ <;> rfl

end Traps

/-! ## The member in memory -/

theorem shift_or_byte (x : Word) : (x >>> 8) <<< 8 ||| (x.setWidth 8).setWidth 64 = x := by
  refine BitVec.eq_of_getLsbD_eq fun i hi => ?_
  by_cases h8 : i < 8
  · simp [h8, hi]
  · simp [h8, hi, show 8 + (i - 8) = i by omega]

/-- The bytes of a word make up the word. -/
theorem bytesWord_wordBytes (w : Word) : bytesWord (wordBytes w) = w := by
  have hfrom : ∀ n k, k + n = 8 →
      bytesWord ((List.range' k n).map fun i => cfgByte w i) = w >>> (8 * k) := by
    intro n
    induction n with
    | zero =>
      intro k hk
      obtain rfl : k = 8 := by omega
      exact (BitVec.ushiftRight_eq_zero (by decide)).symm
    | succ n ih =>
      intro k hk
      rw [List.range'_succ, List.map_cons, bytesWord, List.foldr_cons]
      change bytesWord _ <<< 8 ||| _ = _
      rw [ih (k + 1) (by omega), cfgByte, Nat.mul_succ, BitVec.shiftRight_add]
      exact shift_or_byte (w >>> (8 * k))
  have h := hfrom 8 0 rfl
  rw [← List.range_eq_range'] at h
  exact h.trans (BitVec.ushiftRight_zero w)

/-- The bytes of the members `mscratch`. -/
def slotBytes (L : Layout) : Set Word :=
  {a | ∃ h, ∃ i < 8, a = L.mscratchSlot h + BitVec.ofNat 64 i}

section Slot

variable {L : Layout} {m m' : Monitor} {g h : HartId}

/-- They are variables of the monitor. -/
theorem slotBytes_subset_vars : slotBytes L ⊆ L.vars := by
  rintro a ⟨g, i, hi, rfl⟩
  have hmem : (L.frame g, trapRegsSize) ∈ L.ranges := by
    unfold Layout.ranges
    exact List.mem_append_left _ (List.mem_append_right _
      (List.mem_map.mpr ⟨g, List.mem_finRange g, rfl⟩))
  refine ⟨_, hmem, ?_⟩
  rw [Layout.mscratchSlot, slot, BitVec.add_assoc, ← BitVec.ofNat_add]
  exact inBytes_add _ (show 8 * 35 + i < 296 by omega)

theorem slotMscratch_setSlot (w : Word) : (m.setSlot L h w).slotMscratch L h = w := by
  have hlen : (wordBytes w).length = 8 := length_wordBytes w
  have hread := @readMem_byteStores (m.setSlot L h w) m.mem (L.mscratchSlot h) (wordBytes w)
    (by rw [hlen]; decide)
  rw [hlen, ← mem_writeMem (L.mscratchSlot h) (by rw [hlen]; decide)] at hread
  exact (congrArg bytesWord hread).trans (bytesWord_wordBytes w)

theorem slotMscratch_congr (hmem : ∀ a ∈ slotBytes L, m'.mem a = m.mem a) (h : HartId) :
    m'.slotMscratch L h = m.slotMscratch L h := by
  unfold slotMscratch readMem
  refine congrArg bytesWord (List.map_congr_left fun i hi => hmem _ ?_)
  exact ⟨h, i, List.mem_range.mp hi, rfl⟩

theorem slotMscratch_setSlot_ne (hL : L.FramesOk) (hne : g ≠ h) (w : Word) :
    (m.setSlot L h w).slotMscratch L g = m.slotMscratch L g := by
  have hlen : (wordBytes w).length = 8 := length_wordBytes w
  unfold slotMscratch readMem
  refine congrArg bytesWord (List.map_congr_left fun i hi => ?_)
  have hi' := List.mem_range.mp hi
  rw [setSlot, mem_writeMem (L.mscratchSlot h) (by rw [hlen]; decide)]
  refine storeAll_byteStores_apart _ fun j hj => ?_
  exact hL.apart h g (Ne.symm hne) j (by omega) i hi'

/-- Stores that keep off the variables leave the members. -/
theorem slotMscratch_off {ss : List (Word × Byte)} (hoff : ∀ s ∈ ss, s.1 ∉ L.vars) {a : Word}
    (ha : a ∈ slotBytes L) : storeAll m.mem ss a = m.mem a := by
  refine storeAll_of_notMem fun s hs hsa => hoff s hs ?_
  rw [hsa]
  exact slotBytes_subset_vars ha

end Slot

/-! ## The handler and the frames -/

section Handler

variable {C : Crypto} {L : Layout} {m : Monitor} {h : HartId} {t : Trap} {info : Word}

theorem DataSafe.arrive (hs : m.DataSafe) (h : HartId) (t : Trap) : (m.arrive h t).DataSafe := by
  have hcore : (m.arrive h t).core = m.core := m.core_setHart_same h (toHartCore_arrived t _)
  exact ⟨hcore ▸ hs.steady, hs.apart⟩

/-- What the handler of a trap leaves of the frames and the records, and with which `mscratch` it
hands the trap on. -/
structure KeepsFrames (L : Layout) (m : Monitor) (h : HartId) (res : Monitor × Exit) : Prop where
  osbi : SameOsbi m res.1
  mem : ∀ a ∈ slotBytes L, res.1.mem a = m.mem a
  exit : ∀ regs, res.2 = .toOsbi regs →
    regs.mscratch = m.slotMscratch L h ∨ regs.mscratch = (m.hart h).osbiMscratch

theorem data_of_slotBytes (hL : L.FramesOk) {a : Word} (ha : a ∈ slotBytes L) :
    a.toNat ∈ monitorData := by
  obtain ⟨g, i, hi, rfl⟩ := ha
  exact hL.inData g i hi

theorem serviceOf_plain (hk : t.isKeystone = false) : m.serviceOf h t = none := by
  unfold serviceOf
  rw [hk]
  rfl

theorem keepsFrames_plain (hk : t.isKeystone = false) :
    KeepsFrames L m h (m.frameHandler C L h t info) := by
  have hres := plainTrap_trapHandler C m h (m.framed L h t) hk
  have hservice : m.serviceOf h (m.framed L h t) = none := serviceOf_plain hk
  rw [frameHandler, trapHandlerIn_none hservice]
  exact ⟨hres.osbi, fun a _ => congrFun hres.mem a, hres.exit⟩

/-- A call ends in S/U mode, whatever it leaves in memory. -/
theorem keepsFrames_call (C : Crypto) (hk : t.isKeystone = true) {mem : Word → Byte}
    (hmem : ∀ a ∈ slotBytes L, mem a = m.mem a) :
    KeepsFrames L m h ({ (m.trapHandler C h t).1 with mem := mem }, (m.trapHandler C h t).2) := by
  have hserve : SameOsbi m (m.served C h t).1 := (sameOsbi_arrive m h t).serve C _ _ _
  rw [m.trapHandler_keystone C h t hk]
  refine ⟨?_, hmem, fun regs hex => absurd hex (finish_not_toOsbi m h t _ regs)⟩
  rw [fst_finish]
  exact hserve

theorem keepsFrames_keystone (hL : L.FramesOk) (hs : m.DataSafe) (hk : t.isKeystone = true)
    (hoff : ∀ s ∈ m.serviceStores C h t info, s.1 ∉ L.vars) :
    KeepsFrames L m h (m.frameHandler C L h t info) := by
  rw [frameHandler]
  cases hservice : m.serviceOf h (m.framed L h t) with
  | some call =>
    rw [trapHandlerIn_service hservice hoff]
    exact @keepsFrames_call L m h (m.framed L h t) (C.yielding _) hk _
      fun a ha => slotMscratch_off hoff ha
  | none =>
    rw [trapHandlerIn_none hservice]
    have hreq : m.requestOf h t ≠ .attest ∧ m.requestOf h t ≠ .sealingKey := by
      have hnone : m.serviceOf h t = none := hservice
      unfold serviceOf at hnone
      rw [if_pos hk] at hnone
      constructor <;> intro hreq <;> rw [hreq] at hnone <;> cases hnone
    have hmem : ∀ a ∈ slotBytes L, (m.trapHandler C h (m.framed L h t)).1.mem a = m.mem a := by
      intro a ha
      rw [m.trapHandler_keystone C h (m.framed L h t) hk, fst_finish]
      exact data_serve (hs.arrive h (m.framed L h t)) (data_of_slotBytes hL ha)
        (frame (m.framed L h t)) t.env hreq.1 hreq.2
    have hcall := @keepsFrames_call L m h (m.framed L h t) C hk _ hmem
    generalize m.trapHandler C h (m.framed L h t) = res at hcall ⊢
    exact hcall

theorem keepsFrames (hL : L.FramesOk) (hs : m.DataSafe)
    (hoff : ∀ s ∈ m.serviceStores C h t info, s.1 ∉ L.vars) :
    KeepsFrames L m h (m.frameHandler C L h t info) := by
  cases hk : t.isKeystone with
  | true => exact keepsFrames_keystone hL hs hk hoff
  | false => exact keepsFrames_plain hk

end Handler

/-! ## Leaving the monitor -/

section Leaving

variable {m m₁ : Monitor} {g h : HartId}

theorem mem_leave (ex : Exit) : (m.leave h ex).mem = m.mem := by
  cases ex <;> rfl

theorem SameOsbi.leave (ho : SameOsbi m m₁) (ex : Exit) : SameOsbi m (m₁.leave h ex) := by
  cases ex with
  | toOsbi regs => exact (ho.setPmp _).setHart rfl rfl
  | _ => exact ho.setHart rfl rfl

theorem mem_monTrapReturnOsbi (regs : TrapRegs) : (m.monTrapReturnOsbi h regs).1.mem = m.mem := by
  unfold monTrapReturnOsbi
  dsimp only
  repeat' split
  all_goals rfl

theorem mem_osbiReturnStep (regs : TrapRegs) : (m.osbiReturnStep h regs).mem = m.mem :=
  (mem_leave _).trans (mem_monTrapReturnOsbi regs)

theorem SameOsbi.monTrapReturnOsbi (ho : SameOsbi m m₁) (regs : TrapRegs)
    (hst : (m₁.hart h).suStarted = true) : SameOsbi m (m₁.monTrapReturnOsbi h regs).1 := by
  unfold Monitor.monTrapReturnOsbi
  simp only [hst, Bool.not_true, Bool.false_eq_true, if_false]
  have hperm : SameOsbi m (if (m₁.hart h).monEnclaveExecution then m₁.sbiSmSetEnclavePermissions h
      else m₁) := by
    split
    · exact (ho.setPmp _).setPmp _
    · exact ho
  generalize (if (m₁.hart h).monEnclaveExecution then m₁.sbiSmSetEnclavePermissions h else m₁) = m₂
    at hperm
  split
  · split <;> exact hperm
  split
  · exact hperm.setHart rfl rfl
  split
  · exact hperm
  · exact hperm.setHart rfl rfl

/-- A later return of OpenSBI. -/
theorem sameOsbi_osbiReturnStep (regs : TrapRegs) (hst : (m.hart h).suStarted = true) :
    SameOsbi m (m.osbiReturnStep h regs) := by
  have hlock : SameOsbi m (m.writePmpcfg0 h LOCK_OSBI) := SameOsbi.refl.setPmp _
  exact (hlock.monTrapReturnOsbi regs ((hlock h).2.trans hst)).leave _

/-- The first return records the `mscratch` of OpenSBI. -/
theorem osbiReturnStep_first (regs : TrapRegs) (hst : (m.hart h).suStarted = false) :
    ((m.osbiReturnStep h regs).hart h).osbiMscratch = regs.mscratch ∧
      ∀ g ≠ h, (m.osbiReturnStep h regs).hart g = m.hart g := by
  have hst' : ((m.writePmpcfg0 h LOCK_OSBI).hart h).suStarted = false := by
    rw [← hst]
    exact ((SameOsbi.refl.setPmp (m := m) (k := h) _) h).2
  have heq : m.osbiReturnStep h regs = ((m.writePmpcfg0 h LOCK_OSBI).setHart h
      { (m.writePmpcfg0 h LOCK_OSBI).hart h with
        osbiMscratch := regs.mscratch, suStarted := true }).setMode h .su := by
    unfold osbiReturnStep monTrapReturnOsbi
    simp only [hst', Bool.not_false, if_true]
    rfl
  rw [heq]
  refine ⟨?_, fun g hg => ?_⟩
  · unfold setMode
    rw [hart_setHart_self, hart_setHart_self]
  · unfold setMode writePmpcfg0 setPmp
    rw [hart_setHart_ne _ h hg, hart_setHart_ne _ h hg]
    dsimp only
    rw [hart_setHart_ne _ h hg]

end Leaving

/-- The state in which `mon_trap_return_osbi` runs, but for `pmpcfg0`: the frame is in memory. -/
def beforeReturn (L : Layout) (m : Monitor) (h : HartId) (regs : TrapRegs) : Monitor :=
  if mppOf regs.mstatus = 3 then { m with mem := storeAll m.mem (m.osbiStores h regs) }
  else m.setSlot L h regs.mscratch

section BeforeReturn

variable {C : Crypto} {L : Layout} {m : Monitor} {h : HartId} {regs : TrapRegs}

theorem hart_beforeReturn : (beforeReturn L m h regs).hart = m.hart := by
  unfold beforeReturn
  split <;> rfl

theorem core_beforeReturn : (beforeReturn L m h regs).core = m.core := by
  unfold beforeReturn
  split <;> rfl

theorem frameStep_osbiReturn (hmode : (m.hart h).mode = .osbi)
    (hoff : m.KeepsOff C L (.osbiReturn h regs)) :
    m.frameStep C L (.osbiReturn h regs) = (beforeReturn L m h regs).osbiReturnStep h regs := by
  dsimp only [frameStep]
  rw [if_pos hmode, frameReturn, beforeReturn]
  split
  · next hmpp =>
    have hcomm := monTrapReturnOsbi_withMem (m.writePmpcfg0 h LOCK_OSBI) h regs
      (storeAll m.mem (m.osbiStores h regs))
    rw [returnHandlerIn_off hmpp (hoff hmode hmpp)]
    generalize storeAll m.mem (m.osbiStores h regs) = mem at hcomm ⊢
    exact (congrArg (fun res : Monitor × Exit => res.1.leave h res.2) hcomm).symm
  · rfl

end BeforeReturn

/-! ## The invariant -/

/-- Each hart that has been in S/U mode has the `mscratch` of OpenSBI in its frame and
in its record. -/
structure OwnScratch (L : Layout) (own : HartId → Word) (m : Monitor) : Prop where
  safe : m.DataSafe
  started : m.core.Started
  slot : ∀ g, (m.hart g).suStarted = true → m.slotMscratch L g = own g
  record : ∀ g, (m.hart g).suStarted = true → (m.hart g).osbiMscratch = own g

section Invariant

variable {C : Crypto} {L : Layout} {own : HartId → Word} {m m' : Monitor} {h : HartId}

theorem core_frameLeave (ex : Exit) : (m.frameLeave L h ex).core = (m.leave h ex).core := by
  cases ex <;> rfl

/-- Where the frames are kept makes no difference to the tables and to the PMP. -/
theorem core_frameStep {i : MemInput} (hoff : m.KeepsOff C L i) :
    ∃ ev, (m.frameStep C L i).core = m.core.step ev := by
  cases i with
  | trap h t info =>
    have hframed : m.KeepsOff C L (.trap h (m.framed L h t) info) := hoff
    obtain ⟨C', mem, -, heq⟩ := stepIn_off hframed
    have hcore : (m.frameStep C L (.trap h t info)).core =
        (m.stepIn C L (.trap h (m.framed L h t) info)).core := by
      have hen : m.trapEnabled h (m.framed L h t) = m.trapEnabled h t := rfl
      dsimp only [frameStep, stepIn]
      rw [hen]
      split
      · exact core_frameLeave _
      · rfl
    refine ⟨m.event C' (.trap h (m.framed L h t)), ?_⟩
    rw [← step_core, hcore, heq]
    rfl
  | osbiReturn h regs =>
    by_cases hmode : (m.hart h).mode = .osbi
    · have hmode' : ((beforeReturn L m h regs).hart h).mode = .osbi := by
        rw [hart_beforeReturn]
        exact hmode
      have hstep : (beforeReturn L m h regs).step C (.osbiReturn h regs) =
          (beforeReturn L m h regs).osbiReturnStep h regs := if_pos hmode'
      refine ⟨(beforeReturn L m h regs).event C (.osbiReturn h regs), ?_⟩
      rw [frameStep_osbiReturn hmode hoff, ← hstep, step_core, core_beforeReturn]
    · refine ⟨.other, ?_⟩
      dsimp only [frameStep]
      rw [if_neg hmode]
      rfl
  | store h a b =>
    refine ⟨.other, ?_⟩
    dsimp only [frameStep]
    split
    · next hcan =>
      rw [write_off fun s hs => List.mem_singleton.mp hs ▸ hoff hcan]
      rfl
    · rfl

theorem core_kept_frameStep (hi : OwnScratch L own m) {i : MemInput} (hoff : m.KeepsOff C L i) :
    (m.frameStep C L i).DataSafe ∧ (m.frameStep C L i).core.Started := by
  obtain ⟨ev, hcore⟩ := core_frameStep hoff
  refine ⟨⟨?_, ?_⟩, ?_⟩
  · rw [hcore]
    exact hi.safe.steady.step ev
  · rw [← core_table, hcore]
    exact Core.table_step (apart_rule ev) hi.safe.apart
  · rw [hcore]
    unfold Core.step
    split
    · next hen => exact hi.started.apply hen
    · exact hi.started

theorem OwnScratch.suStarted (hi : OwnScratch L own m) (hsu : (m.hart h).mode = .su) :
    (m.hart h).suStarted = true := by
  cases hst : (m.hart h).suStarted with
  | true => rfl
  | false =>
    have hosbi : (m.hart h).mode = .osbi := (hi.started h hst).1
    rw [hsu] at hosbi
    cases hosbi

/-- The `mscratch` with which a trap is handed on. -/
theorem OwnScratch.exit (hi : OwnScratch L own m) (hsu : (m.hart h).mode = .su)
    {res : Monitor × Exit} (hk : KeepsFrames L m h res) {regs : TrapRegs}
    (hex : res.2 = .toOsbi regs) : regs.mscratch = own h := by
  have hst := hi.suStarted hsu
  rcases hk.exit regs hex with hslot | hrecord
  · rw [hslot, hi.slot h hst]
  · rw [hrecord, hi.record h hst]

theorem sameOsbi_frameLeave (ho : SameOsbi m m') (ex : Exit) :
    SameOsbi m (m'.frameLeave L h ex) := by
  have hleave := ho.leave (h := h) ex
  cases ex <;> exact hleave

theorem slot_frameLeave (hL : L.FramesOk) (hi : OwnScratch L own m) (hsu : (m.hart h).mode = .su)
    {res : Monitor × Exit} (hk : KeepsFrames L m h res) {g : HartId}
    (hst : (m.hart g).suStarted = true) :
    (res.1.frameLeave L h res.2).slotMscratch L g = own g := by
  have hslot : (res.1.leave h res.2).slotMscratch L g = own g := by
    rw [← hi.slot g hst]
    refine slotMscratch_congr (fun a ha => ?_) g
    rw [mem_leave]
    exact hk.mem a ha
  cases hex : res.2 with
  | toOsbi regs =>
    have hown := hi.exit hsu hk hex
    rw [hex] at hslot
    unfold frameLeave
    dsimp only
    by_cases hg : g = h
    · rw [hg, slotMscratch_setSlot, hown]
    · rw [slotMscratch_setSlot_ne hL hg, hslot]
  | _ =>
    rw [hex] at hslot
    exact hslot

theorem slot_beforeReturn (hL : L.FramesOk) (hi : OwnScratch L own m) {regs : TrapRegs}
    (hmode : (m.hart h).mode = .osbi) (hoff : m.KeepsOff C L (.osbiReturn h regs))
    (hown : regs.mscratch = own h) {g : HartId}
    (hg : (m.hart g).suStarted = true ∨ g = h ∧ mppOf regs.mstatus ≠ 3) :
    (beforeReturn L m h regs).slotMscratch L g = own g := by
  unfold beforeReturn
  split
  · next hmpp =>
    rcases hg with hst | ⟨-, hne⟩
    · rw [← hi.slot g hst]
      have hframe : ∀ i < trapRegsSize, regs.osbiFrame + BitVec.ofNat 64 i ∉ L.vars :=
        hoff hmode hmpp
      have hstores := forall_osbiStores (m := m) (h := h) (P := (· ∉ L.vars)) hframe
      have hmem : ∀ a ∈ slotBytes L, storeAll m.mem (m.osbiStores h regs) a = m.mem a :=
        fun a ha => slotMscratch_off hstores ha
      generalize storeAll m.mem (m.osbiStores h regs) = mem at hmem
      exact slotMscratch_congr hmem g
    · exact absurd hmpp hne
  · by_cases hgh : g = h
    · rw [hgh, slotMscratch_setSlot, hown]
    · rw [slotMscratch_setSlot_ne hL hgh]
      exact hi.slot g (hg.resolve_right fun hno => hgh hno.1)

theorem own_of_osbiReturn (hi : OwnScratch L own m) (hhart : m'.hart = m.hart) {regs : TrapRegs}
    (hslot : ∀ g, (m.hart g).suStarted = true ∨ g = h ∧ mppOf regs.mstatus ≠ 3 →
      m'.slotMscratch L g = own g)
    (hown : regs.mscratch = own h) (hfirst : (m.hart h).suStarted = false → mppOf regs.mstatus ≠ 3)
    {g : HartId} (hg : ((m'.osbiReturnStep h regs).hart g).suStarted = true) :
    (m'.osbiReturnStep h regs).slotMscratch L g = own g ∧
      ((m'.osbiReturnStep h regs).hart g).osbiMscratch = own g := by
  rw [slotMscratch_congr fun a _ => congrFun (mem_osbiReturnStep regs) a]
  cases hst : (m.hart h).suStarted with
  | true =>
    have hosbi := sameOsbi_osbiReturnStep (m := m') regs (by rw [hhart]; exact hst)
    rw [(hosbi g).2, hhart] at hg
    rw [(hosbi g).1, hhart]
    exact ⟨hslot g (Or.inl hg), hi.record g hg⟩
  | false =>
    obtain ⟨hrecord, hother⟩ := osbiReturnStep_first (m := m') regs (by rw [hhart]; exact hst)
    by_cases hgh : g = h
    · subst hgh
      exact ⟨hslot g (Or.inr ⟨rfl, hfirst hst⟩), hrecord.trans hown⟩
    · rw [hother g hgh, hhart] at hg ⊢
      exact ⟨hslot g (Or.inl hg), hi.record g hg⟩

theorem su_of_trapEnabled {t : Trap} (hen : m.trapEnabled h t = true) : (m.hart h).mode = .su := by
  simp only [trapEnabled, Bool.and_eq_true, beq_iff_eq] at hen
  exact hen.1

/-- One event. -/
theorem ownScratch_frameStep (hL : L.FramesOk) (hi : OwnScratch L own m) {i : MemInput}
    (hkeep : m.OsbiKeeps own i) (hoff : m.KeepsOff C L i) :
    OwnScratch L own (m.frameStep C L i) := by
  obtain ⟨hsafe, hstarted⟩ := core_kept_frameStep hi hoff
  suffices hmem : ∀ g, ((m.frameStep C L i).hart g).suStarted = true →
      (m.frameStep C L i).slotMscratch L g = own g ∧
        ((m.frameStep C L i).hart g).osbiMscratch = own g from
    ⟨hsafe, hstarted, fun g hg => (hmem g hg).1, fun g hg => (hmem g hg).2⟩
  have hsame : ∀ g, (m.hart g).suStarted = true →
      m.slotMscratch L g = own g ∧ (m.hart g).osbiMscratch = own g :=
    fun g hg => ⟨hi.slot g hg, hi.record g hg⟩
  clear hsafe hstarted
  cases i with
  | trap h t info =>
    by_cases hen : m.trapEnabled h t = true
    · have hk := keepsFrames hL hi.safe (hoff hen)
      have heq : m.frameStep C L (.trap h t info) = (m.frameHandler C L h t info).1.frameLeave L h
          (m.frameHandler C L h t info).2 := if_pos hen
      have hosbi := sameOsbi_frameLeave (L := L) (h := h) hk.osbi (m.frameHandler C L h t info).2
      rw [heq]
      intro g hg
      rw [(hosbi g).2] at hg
      exact ⟨slot_frameLeave hL hi (su_of_trapEnabled hen) hk hg,
        (hosbi g).1.trans (hi.record g hg)⟩
    · have heq : m.frameStep C L (.trap h t info) = m := if_neg hen
      rw [heq]
      exact hsame
  | osbiReturn h regs =>
    by_cases hmode : (m.hart h).mode = .osbi
    · obtain ⟨hown, hfirst⟩ := hkeep hmode
      rw [frameStep_osbiReturn hmode hoff]
      intro g hg
      exact own_of_osbiReturn hi hart_beforeReturn
        (fun g hg => slot_beforeReturn hL hi hmode hoff hown hg) hown hfirst hg
    · have heq : m.frameStep C L (.osbiReturn h regs) = m := if_neg hmode
      rw [heq]
      exact hsame
  | store h a b =>
    by_cases hcan : m.canStore h a
    · have hstore : ∀ s ∈ [(a, b)], s.1 ∉ L.vars := fun s hs =>
        List.mem_singleton.mp hs ▸ hoff hcan
      have heq : m.frameStep C L (.store h a b) = m.write L [(a, b)] := if_pos hcan
      rw [heq, write_off hstore]
      intro g hg
      refine ⟨?_, hi.record g hg⟩
      rw [← hi.slot g hg]
      exact slotMscratch_congr (fun a' ha' => slotMscratch_off hstore ha') g
    · have heq : m.frameStep C L (.store h a b) = m := if_neg hcan
      rw [heq]
      exact hsame

theorem entersOsbi {regs : TrapRegs} (hown : regs.mscratch = own h) (hne : own h ≠ 0) :
    EntersOsbi regs (own h) := by
  refine ⟨hown, fun sy c hframe => ?_⟩
  have hslot : c.frame 35 ≠ 0 := by rwa [hframe, hown]
  obtain ⟨c', c'', -, -, -, hmscratch, hsaved, hcalls⟩ := reaches_osbi_handler sy hslot
  obtain ⟨-, hcsr, -⟩ := passStack_spec c''
  exact ⟨_, hcalls, by rw [hcsr, hsaved.csr, hmscratch, hframe, hown]⟩

theorem enters_of_exit (hL : L.FramesOk) (hne : ∀ h, own h ≠ 0) (hi : OwnScratch L own m)
    {i : MemInput} (hoff : m.KeepsOff C L i) {regs : TrapRegs}
    (hexit : m.exitToOsbi C L i = some (h, regs)) : EntersOsbi regs (own h) := by
  unfold exitToOsbi at hexit
  split at hexit
  · next k t info =>
    split at hexit
    · next hen =>
      split at hexit
      · next regs' hex =>
        cases hexit
        have hk := keepsFrames hL hi.safe (hoff hen)
        exact entersOsbi (hi.exit (su_of_trapEnabled hen) hk hex) (hne h)
      · cases hexit
    · cases hexit
  · cases hexit
  · cases hexit

theorem ownScratch_handedOver (mem : Word → Byte) (keys : Keys) :
    OwnScratch L own (handedOver mem keys) := by
  refine ⟨⟨steady_handedOver mem keys, apart_bootTable⟩, fun g _ => ⟨rfl, rfl⟩, fun g hg => ?_,
    fun g hg => ?_⟩
  · cases hg
  · cases hg

end Invariant

/-- In every run in which OpenSBI leaves with its own `mscratch` and nothing is stored onto the
variables of the monitor, every `_mon_exit_to_osbi` enters the trap handler of OpenSBI with that
value. -/
theorem osbi_entered_with_own_scratch (C : Crypto) {L : Layout} (hL : L.FramesOk)
    {own : HartId → Word} (hne : ∀ h, own h ≠ 0) (mem : Word → Byte) (keys : Keys)
    (is : List MemInput)
    (hok : StepsOk (frameStep C L) (fun m i => m.OsbiKeeps own i ∧ m.KeepsOff C L i)
      (handedOver mem keys) is) :
    StepsOk (frameStep C L)
      (fun m i => ∀ h regs, m.exitToOsbi C L i = some (h, regs) → EntersOsbi regs (own h))
      (handedOver mem keys) is := by
  have hstep : ∀ (m : Monitor) (i : MemInput), OwnScratch L own m →
      m.OsbiKeeps own i ∧ m.KeepsOff C L i → OwnScratch L own (m.frameStep C L i) :=
    fun m i hi hcond => ownScratch_frameStep hL hi hcond.1 hcond.2
  refine stepsOk_of_inv hstep ?_ is (ownScratch_handedOver mem keys) hok
  intro m i hi hcond h regs hexit
  exact enters_of_exit hL hne hi hcond.2 hexit

/-! An `mscratch` of OpenSBI for each hart. -/

def osbiScratch (h : HartId) : Word := 0x80050000 + BitVec.ofNat 64 (0x1000 * h.val)

theorem dataLayout_framesOk : dataLayout.FramesOk := by
  have haddr : ∀ (h : HartId), ∀ i < 8, (dataLayout.mscratchSlot h + BitVec.ofNat 64 i).toNat =
      0x80121118 + 0x2000 * h.val + i := by
    intro h i hi
    have := h.isLt
    unfold Layout.mscratchSlot dataLayout slot
    bv_omega
  refine ⟨fun h i hi => ?_, fun g h hgh i hi j hj heq => hgh (Fin.ext ?_)⟩
  · have hlo : REGION_TM_DATA_BASE.toNat = 0x80100000 := by decide
    have hlen : REGION_TM_DATA_SIZE.toNat = 0x40000 := by decide
    have := h.isLt
    rw [haddr h i hi]
    exact ⟨by omega, by omega⟩
  · have hnat := congrArg BitVec.toNat heq
    rw [haddr g i hi, haddr h j hj] at hnat
    omega

theorem osbiScratch_ne_zero (h : HartId) : osbiScratch h ≠ 0 := by
  intro h0
  have hval : (osbiScratch h).toNat = 0x80050000 + 0x1000 * h.val := by
    have := h.isLt
    unfold osbiScratch
    bv_omega
  have hzero : (0 : Word).toNat = 0 := rfl
  rw [h0, hzero] at hval
  omega

/-- The input with the frame at its place; OpenSBI returns with its own `mscratch`. -/
def atFrame : Input → MemInput
  | .trap h t => .trap h t 0x80130000
  | .osbiReturn h regs => .osbiReturn h { regs with mscratch := osbiScratch h }

/-- Hart 1 runs an enclave, which asks for a sealing key at this address. -/
def sealingRun (sealingKey : Word) : List MemInput :=
  (createdRun 0x4000 ++ [Input.trap 1 (entryCall SBI_SM_RUN_ENCLAVE 9)]).map atFrame ++
    [.trap 1 (callTrap SBI_SM_GET_SEALING_KEY sealingKey plainEnv) 0x80130000]

/-- With the key in its EPM, an SBI call of the enclave gets to OpenSBI. -/
theorem own_key_spares_frames :
    let start := handedOver (fun _ => 0) plainKeys
    let is := sealingRun 0x90001000 ++ [.trap 1 (sbiTrap SBI_EXT_TIME) 0]
    (((run (frameStep plainCrypto dataLayout) start (sealingRun 0x90001000)).exitToOsbi plainCrypto
        dataLayout (.trap 1 (sbiTrap SBI_EXT_TIME) 0)).map (·.1)) = some 1 ∧
      StepsOk (frameStep plainCrypto dataLayout)
        (fun m i => ∀ h regs, m.exitToOsbi plainCrypto dataLayout i = some (h, regs) →
          EntersOsbi regs (osbiScratch h)) start is := by
  refine ⟨by decide +kernel, osbi_entered_with_own_scratch plainCrypto dataLayout_framesOk
    osbiScratch_ne_zero _ _ _ ?_⟩
  decide +kernel

/-- With the key over the frame of its hart, the same call gets to OpenSBI with a part of the key in
`mscratch`. -/
theorem sealing_key_over_frame :
    let start := handedOver (fun _ => 0) plainKeys
    let m := run (frameStep plainCrypto dataLayout) start (sealingRun (dataLayout.mscratchSlot 1))
    StepsOk (frameStep plainCrypto dataLayout) (fun m i => m.OsbiKeeps osbiScratch i) start
        (sealingRun (dataLayout.mscratchSlot 1)) ∧
      ∃ regs, m.exitToOsbi plainCrypto dataLayout (.trap 1 (sbiTrap SBI_EXT_TIME) 0) =
          some (1, regs) ∧ ¬ EntersOsbi regs (osbiScratch 1) := by
  intro start m
  have hexit : ((m.exitToOsbi plainCrypto dataLayout (.trap 1 (sbiTrap SBI_EXT_TIME) 0)).map
      fun r => (r.1, r.2.mscratch)) = some (1, 0x0101010101010101) := by decide +kernel
  refine ⟨by decide +kernel, ?_⟩
  obtain ⟨⟨h, regs⟩, hres, hval⟩ := Option.map_eq_some_iff.mp hexit
  obtain ⟨rfl, hmscratch⟩ := Prod.mk.inj hval
  refine ⟨regs, hres, fun henters => ?_⟩
  have hown := henters.1
  rw [hmscratch] at hown
  exact absurd hown (by decide)

end Monitor

end Dorami.Sm
