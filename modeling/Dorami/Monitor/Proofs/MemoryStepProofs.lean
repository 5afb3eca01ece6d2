import Dorami.Monitor.MemoryRuns
import Dorami.Monitor.Proofs.OsbiFrameProofs

/-!
# Runs that keep off the variables

A step that stores nothing onto the variables of the monitor is a step of the model without such
stores, but for the memory, so what holds of the tables and of the harts in all runs of that model
holds in the runs that keep off.
-/

namespace Dorami.Sm.Monitor

open Riscv Lib

variable {C : Crypto} {L : Layout} {m : Monitor}

/-! ## Traps -/

section Traps

variable {h : HartId} {t : Trap} {info : Word} {call : ServiceCall}

theorem serviceOf_some (hs : m.serviceOf h t = some call) : t.isKeystone = true ∧
    (m.requestOf h t = .attest ∧ call = .attest t.regs.a0 t.regs.a1 t.regs.a2 ∨
      m.requestOf h t = .sealingKey ∧ call = .sealingKey t.regs.a0 t.regs.a1 t.regs.a2) := by
  unfold serviceOf at hs
  by_cases hk : t.isKeystone = true
  · rw [if_pos hk] at hs
    cases hreq : m.requestOf h t with
    | attest =>
      rw [hreq] at hs
      exact ⟨hk, .inl ⟨rfl, (Option.some.inj hs).symm⟩⟩
    | sealingKey =>
      rw [hreq] at hs
      exact ⟨hk, .inr ⟨rfl, (Option.some.inj hs).symm⟩⟩
    | _ =>
      rw [hreq] at hs
      cases hs
  · rw [if_neg hk] at hs
    cases hs

/-- The stores do not depend on what the arrival of the trap changes. -/
theorem stores_arrive (call : StopFreeCall) :
    (m.arrive h t).stores C h t.env info call = m.stores C h t.env info call := by
  have heid : ((m.arrive h t).hart h).eid = (m.hart h).eid :=
    congrArg HartCore.eid (m.toHartCore_arrive h t)
  unfold stores
  rw [heid]
  rfl

/-- The key that is derived for a service, if it asks for one. -/
def serviceKey (C : Crypto) (m : Monitor) (h : HartId) (info : Word) :
    ServiceCall → Option (List Byte)
  | .attest .. => none
  | .sealingKey _ keyIdent size => derived C m info keyIdent size (m.enclaves (m.hart h).eid).hash

theorem serviceKey_arrive :
    (m.arrive h t).serviceKey C h info call = m.serviceKey C h info call := by
  have heid : ((m.arrive h t).hart h).eid = (m.hart h).eid :=
    congrArg HartCore.eid (m.toHartCore_arrive h t)
  cases call with
  | attest => rfl
  | sealingKey sealingKey keyIdent size =>
    unfold serviceKey
    rw [heid]
    rfl

/-- A service that keeps off the variables, but for the memory. -/
theorem serviceIn_off {env : Env}
    (hoff : ∀ s ∈ m.stores C h env info (.service call), s.1 ∉ L.vars) :
    m.serviceIn C L h env info call =
      ({ (m.service (C.yielding (m.serviceKey C h info call)) h env call).1 with
          mem := storeAll m.mem (m.stores C h env info (.service call)) },
        (m.service (C.yielding (m.serviceKey C h info call)) h env call).2) := by
  cases call with
  | attest reportPtr data size =>
    have hmem := @mem_attestEnclave (C.yielding none) m h env info reportPtr data size
    have hstores : m.stores (C.yielding none) h env info (.service (.attest reportPtr data size)) =
        m.stores C h env info (.service (.attest reportPtr data size)) := rfl
    refine (attestEnclaveIn_off hoff).trans ?_
    rw [← hstores, ← hmem]
    rfl
  | sealingKey sealingKey keyIdent size => exact getSealingKeyIn_off hoff

/-- The trap of a service. -/
theorem trapHandlerIn_service (hs : m.serviceOf h t = some call)
    (hoff : ∀ s ∈ m.serviceStores C h t info, s.1 ∉ L.vars) :
    m.trapHandlerIn C L h t info =
      ({ (m.trapHandler (C.yielding (m.serviceKey C h info call)) h t).1 with
          mem := storeAll m.mem (m.serviceStores C h t info) },
        (m.trapHandler (C.yielding (m.serviceKey C h info call)) h t).2) := by
  have hstores : m.serviceStores C h t info = m.stores C h t.env info (.service call) := by
    rw [serviceStores, hs]
  rw [hstores, ← stores_arrive] at hoff
  have hservice := serviceIn_off hoff
  rw [serviceKey_arrive] at hservice
  generalize m.serviceKey C h info call = key at hservice ⊢
  obtain ⟨hk, hreq⟩ := serviceOf_some hs
  have hserved : m.served (C.yielding key) h t =
      (((m.arrive h t).service (C.yielding key) h t.env call).1,
        .ret ((m.arrive h t).service (C.yielding key) h t.env call).2.code t.env.outVal) := by
    unfold served
    rcases hreq with ⟨hreq, rfl⟩ | ⟨hreq, rfl⟩
    · rw [hreq]
      rfl
    · rw [hreq]
      rfl
  unfold trapHandlerIn
  rw [hs]
  dsimp only
  rw [trapHandler_keystone (C.yielding key) m h t hk, hserved, hstores, ← stores_arrive, hservice]
  rfl

theorem trapHandlerIn_none (hs : m.serviceOf h t = none) :
    m.trapHandlerIn C L h t info = m.trapHandler C h t := by
  rw [trapHandlerIn, hs]

end Traps

/-! ## Steps -/

theorem leave_withMem (h : HartId) (ex : Exit) (mem : Word → Byte) :
    ({ m with mem := mem } : Monitor).leave h ex = { m.leave h ex with mem := mem } := by
  cases ex <;> rfl

section Service

variable {h : HartId} {t : Trap} {info : Word} {call : ServiceCall}

/-- A trap that asks for no service. -/
theorem stepIn_none (hs : m.serviceOf h t = none) :
    m.stepIn C L (.trap h t info) = m.step C (.trap h t) := by
  dsimp only [stepIn, step]
  rw [trapHandlerIn_none hs]
  rfl

/-- A trap that asks for one. -/
theorem stepIn_service (hs : m.serviceOf h t = some call) (hen : m.trapEnabled h t = true)
    (hoff : ∀ s ∈ m.serviceStores C h t info, s.1 ∉ L.vars) :
    m.stepIn C L (.trap h t info) =
      { m.step (C.yielding (m.serviceKey C h info call)) (.trap h t) with
        mem := storeAll m.mem (m.serviceStores C h t info) } := by
  dsimp only [stepIn, step]
  rw [if_pos hen, if_pos hen, trapHandlerIn_service hs hoff]
  exact leave_withMem h _ _

end Service

/-- A step that keeps off the variables, but for the memory. Only the key derivation is
another one. -/
theorem stepIn_off {i : MemInput} (hoff : m.KeepsOff C L i) :
    ∃ C' mem, C'.sha3 = C.sha3 ∧ m.stepIn C L i = { m.plainStep C' i with mem := mem } := by
  cases i with
  | trap h t info =>
    by_cases hen : m.trapEnabled h t = true
    · cases hs : m.serviceOf h t with
      | none =>
        refine ⟨C, (m.step C (.trap h t)).mem, rfl, ?_⟩
        rw [stepIn_none hs]
        rfl
      | some call =>
        refine ⟨C.yielding (m.serviceKey C h info call),
          storeAll m.mem (m.serviceStores C h t info), rfl, ?_⟩
        rw [stepIn_service hs hen (hoff hen)]
        rfl
    · refine ⟨C, m.mem, rfl, ?_⟩
      dsimp only [stepIn, plainStep, MemInput.input?, step]
      rw [if_neg hen, if_neg hen]
  | osbiReturn h regs =>
    by_cases hmode : (m.hart h).mode = .osbi
    · by_cases hmpp : mppOf regs.mstatus = 3
      · refine ⟨C, storeAll m.mem (m.osbiStores h regs), rfl, ?_⟩
        dsimp only [stepIn, plainStep, MemInput.input?, step]
        rw [if_pos hmode, if_pos hmode, returnHandlerIn_off hmpp (hoff hmode hmpp)]
        exact leave_withMem h _ _
      · refine ⟨C, (m.step C (.osbiReturn h regs)).mem, rfl, ?_⟩
        dsimp only [stepIn, plainStep, MemInput.input?, step]
        rw [if_pos hmode, if_pos hmode, returnHandlerIn, if_neg hmpp]
        rfl
    · refine ⟨C, m.mem, rfl, ?_⟩
      dsimp only [stepIn, plainStep, MemInput.input?, step]
      rw [if_neg hmode, if_neg hmode]
  | store h a b =>
    by_cases hcan : m.canStore h a
    · refine ⟨C, storeAll m.mem [(a, b)], rfl, ?_⟩
      dsimp only [stepIn, plainStep, MemInput.input?]
      rw [if_pos hcan]
      refine write_off fun s hs => ?_
      rw [List.mem_singleton.mp hs]
      exact hoff hcan
    · refine ⟨C, m.mem, rfl, ?_⟩
      dsimp only [stepIn, plainStep, MemInput.input?]
      rw [if_neg hcan]

/-- What the memory does not decide and a step of the other model keeps, a step that keeps off the
variables keeps. -/
theorem stepIn_keeps {P : Monitor → Prop} {i : MemInput}
    (hmem : ∀ {m : Monitor} (mem : Word → Byte), P m → P { m with mem := mem })
    (hoff : m.KeepsOff C L i) (hm : P m)
    (hstep : ∀ (C' : Crypto) (j : Input), C'.sha3 = C.sha3 → i.input? = some j → P (m.step C' j)) :
    P (m.stepIn C L i) := by
  obtain ⟨C', mem, hsha, heq⟩ := stepIn_off hoff
  rw [heq]
  refine hmem mem ?_
  unfold plainStep
  cases hi : i.input? with
  | none => exact hm
  | some j => exact hstep C' j hsha hi

/-- What holds at the hand-over and is kept by every step holds in every run that keeps off the
variables. -/
theorem ReachableIn.induct {P : Monitor → Prop} (hm : m.ReachableIn C L)
    (hboot : ∀ mem keys, P (handedOver mem keys))
    (hmem : ∀ {m : Monitor} (mem : Word → Byte), P m → P { m with mem := mem })
    (hstep : ∀ (C' : Crypto) (m : Monitor) (j : Input), P m → P (m.step C' j)) : P m := by
  obtain ⟨mem, keys, is, hoff, rfl⟩ := hm
  refine inv_run (fun m i hm hi => ?_) is (hboot mem keys) hoff
  exact stepIn_keeps hmem hi hm fun C' j _ _ => hstep C' m j hm

/-! ## A layout -/

/-- Variables one after another in the monitor's data, with `regions[]` last and the frames in the
scratch area of the harts. -/
def dataLayout : Layout :=
  { regions := 0x80104000
    regBitmap := 0x80100100
    regionDefBitmap := 0x80100104
    enclaves := 0x80100200
    ocallInfo := 0x80103000
    cpus := 0x80103100
    temporaryRegisters := 0x80103200
    temporaryInfos := 0x80103800
    monEnclaveExecution := 0x80103900
    osbiMscratch := 0x80103a00
    sscratchDoubleSave := 0x80103a40
    sscratchDoubleSaveEnclave := 0x80103a80
    suStarted := 0x80103ac0
    smHash := 0x80103b00
    smSignature := 0x80103b40
    smPublicKey := 0x80103b80
    smPrivateKey := 0x80103bc0
    devPublicKey := 0x80103c00
    randomW := 0x80103c40
    frame := fun h => 0x80121000 + 0x2000 * BitVec.ofNat 64 h
    rest := [] }

/-- Nothing above the monitor's data is a variable. -/
theorem notMem_vars_dataLayout {a : Word} (ha : 0x80140000 ≤ a.toNat) : a ∉ dataLayout.vars := by
  rintro ⟨r, hr, hin⟩
  have hend : ∀ r ∈ dataLayout.ranges, r.1.toNat + r.2 ≤ 0x80140000 := by decide
  have hle := hend r hr
  have hlt : (a - r.1).toNat < r.2 := hin
  bv_omega

end Dorami.Sm.Monitor
