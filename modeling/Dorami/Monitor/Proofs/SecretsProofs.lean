import Dorami.Monitor.Proofs.ReportProofs
import Dorami.Monitor.Proofs.StackProofs
import Dorami.Monitor.Proofs.TwinProofs

/-!
# Enclave secrets do not outlive the enclave

Every act keeps the two runs apart in the secrets only. The two services that write memory write the
same bytes in both runs, or only to the caller's EPM and to the data of the monitor, where the array
`info` is; and what the enclaves store stays in their EPMs. When an enclave is destroyed, its EPM is
cleared before any hart loses the entry for it.
-/

namespace Dorami.Sm

open Riscv Lib

namespace Monitor

variable {C : Crypto} {L : Layout} {d : Detail}

section Acts

variable {m m' : Monitor} {k k' : MemCall}

/-! ## Reports -/

/-- Two copies of the same bytes, to places that are the same or secret. -/
theorem alike_copyStores {S : Set Word} {env env' : Env} (bs : List Byte) :
    ∀ {dst : Word}, (∀ i < bs.length, env'.store (dst + BitVec.ofNat 64 i) =
        env.store (dst + BitVec.ofNat 64 i) ∨
      ∃ pa pa', env.store (dst + BitVec.ofNat 64 i) = some pa ∧
        env'.store (dst + BitVec.ofNat 64 i) = some pa' ∧ pa ∈ S ∧ pa' ∈ S) →
      List.Forall₂ (AlikeStores S) (copyStores env dst bs) (copyStores env' dst bs) := by
  induction bs with
  | nil => intro dst _; exact .nil
  | cons b bs ih =>
    intro dst h
    have hhead := h 0 (Nat.succ_pos _)
    rw [BitVec.add_zero] at hhead
    have htail : List.Forall₂ (AlikeStores S) (copyStores env (dst + 1) bs)
        (copyStores env' (dst + 1) bs) := ih fun i hi => by
      rw [add_one_add]
      exact h (i + 1) (Nat.succ_lt_succ hi)
    unfold copyStores
    rcases hhead with heq | ⟨pa, pa', hpa, hpa', hin, hin'⟩
    · rw [heq]
      cases env.store dst with
      | none => exact .nil
      | some pa => exact .cons (Or.inl rfl) htail
    · rw [hpa, hpa']
      exact .cons (Or.inr ⟨hin, hin'⟩) htail

theorem Twin.sizedAt (ht : Twin m m') {h : HartId} {env : Env}
    (hlen : env.reportData.length = ATTEST_DATA_MAXLEN.toNat) : m.Sized h env :=
  ⟨ht.digest _, ht.sized.smHash, ht.sized.smPublicKey, ht.sized.smSignature, ht.sized.devPublicKey,
    hlen⟩

theorem secret_of_inside (hs : m.Settled d) {h : HartId} (hin : (m.hart h).isEnclave = true)
    {a : Word} (ha : m.inEpm (m.hart h).eid a.toNat = true) : a ∈ m.secret :=
  Or.inr (inLiveEpm_of_inside hs hin ha)

/-- The stores of a report that goes to the EPM of the enclave on the hart. -/
theorem within_copyStores (hs : m.Settled d) {h : HartId} (hin : (m.hart h).isEnclave = true)
    {env : Env} {ptr : Word} {bs : List Byte} (hlen : bs.length = reportSize)
    (hw : ∀ i < reportSize, ∀ pa, env.store (ptr + BitVec.ofNat 64 i) = some pa →
      m.inEpm (m.hart h).eid pa.toNat = true) :
    ∀ s ∈ copyStores env ptr bs, s.1 ∈ m.secret := by
  rw [forall_copyStores, hlen]
  intro pa hpa
  obtain ⟨i, hi, hstore⟩ := mem_copyTargets hpa
  exact secret_of_inside hs hin (hw i hi pa hstore)

theorem Twin.reportBytes (ht : Twin m m') (eid : Nat) (size : Word) (data : List Byte) :
    m'.reportBytes C (m'.enclaves eid) size data = m.reportBytes C (m.enclaves eid) size data := by
  unfold Monitor.reportBytes
  rw [ht.hash, ht.keys]

/-- The stores of a report are alike in both runs: it differs in the bytes that its data does not
fill, at most. -/
theorem Twin.attest (hC : C.Sized) (ht : Twin m m') (hk : m.SameCall k k')
    (hin : (m.hart k.hart).isEnclave = true) (hf : k.trap.regs.a6 = SBI_SM_ATTEST_ENCLAVE)
    (hcont : m.ContainedCall k k') :
    EqOff m.secret
      (storeAll m.mem (m.stores C k.hart k.trap.env k.info
        (.service (.attest k.trap.regs.a0 k.trap.regs.a1 k.trap.regs.a2))))
      (storeAll m'.mem (m'.stores C k'.hart k'.trap.env k'.info
        (.service (.attest k.trap.regs.a0 k.trap.regs.a1 k.trap.regs.a2)))) := by
  have hdata := hk.data hf
  have hreport := hk.report hf
  have hrest := hcont.attest hin hf
  have hlen := hk.stack hf
  have hwithin' : m.ReportsWithin k' → ∀ i < reportSize, ∀ pa,
      k'.trap.env.store (k.trap.regs.a0 + BitVec.ofNat 64 i) = some pa →
        m.inEpm (m.hart k.hart).eid pa.toNat = true := by
    intro hw i hi pa hpa
    have := hw i hi pa
    rw [hk.a0, hk.hart] at this
    exact this hpa
  unfold stores
  dsimp only
  rw [hk.hart, ht.eid, hdata, congrArg EnclaveCore.attestable (ht.enclaveCore _)]
  split
  · next hgo =>
    simp only [Bool.and_eq_true, decide_eq_true_eq] at hgo
    cases hcopy : copyToSm k.trap.env k.trap.regs.a1 k.trap.regs.a2.toNat with
    | none => exact ht.mem
    | some bytes =>
      dsimp only
      have hlen1 := length_reportBytes C hC (ht.sizedAt (h := k.hart) hlen.1) hgo.1.1 hcopy
      have hlen2 := length_reportBytes C hC (ht.sizedAt (h := k.hart) hlen.2) hgo.1.1
        (hdata.trans hcopy)
      rw [ht.reportBytes]
      rcases hrest with hsame | ⟨hw, hw'⟩
      · rw [hsame]
        refine ht.mem.stores (alike_copyStores _ fun i hi => ?_)
        rw [hlen1] at hi
        rcases hreport i hi with heq | ⟨pa, pa', hpa, hpa', hepm, hepm'⟩
        · exact Or.inl heq
        · exact Or.inr ⟨pa, pa', hpa, hpa', secret_of_inside ht.settled hin hepm,
            secret_of_inside ht.settled hin hepm'⟩
      · exact ht.mem.stores_within (within_copyStores ht.settled hin hlen1 hw)
          (within_copyStores ht.settled hin hlen2 (hwithin' hw'))
  · exact ht.mem

/-! ## Sealing keys -/

/-- An array in the monitor's data is short enough for an `int`. -/
theorem length_of_data {info : Word} {n : Nat}
    (hdata : ∀ i < n, (info + BitVec.ofNat 64 i).toNat ∈ monitorData) : n < 2 ^ 31 := by
  have hbase : REGION_TM_DATA_BASE.toNat = 0x80100000 := rfl
  have hsize : REGION_TM_DATA_SIZE.toNat = 0x40000 := rfl
  by_contra hle
  have hfirst := hdata 0 (by omega)
  have hlater := hdata (2 ^ 30) (by omega)
  rw [monitorData, byteRange, Set.mem_Ico, hbase, hsize, BitVec.toNat_add, BitVec.toNat_ofNat]
    at hfirst hlater
  omega

/-- Without the array: a key derived from an identifier that is not secret is the same
in both runs. -/
theorem Twin.getSealingKey (hC : C.Sized) (ht : Twin m m') (h : HartId) (ptr ident size : Word)
    (hident : ∀ i < size.toNat, ident + BitVec.ofNat 64 i ∉ m.secret) :
    EqOff m.secret (m.getSealingKey C h ptr ident size (m.hart h).eid).1.mem
      (m'.getSealingKey C h ptr ident size (m'.hart h).eid).1.mem := by
  rw [mem_getSealingKey C hC, mem_getSealingKey C hC, ht.eid, ht.hash]
  have hread : m'.readMem ident size.toNat = m.readMem ident size.toNat := by
    unfold readMem
    refine List.map_congr_left fun i hi => ht.mem _ ?_
    exact hident i (List.mem_range.mp hi)
  have hkey : ∀ hash, m'.smDeriveSealingKey C ident size hash =
      m.smDeriveSealingKey C ident size hash := by
    intro hash
    unfold smDeriveSealingKey
    rw [hread, ht.keys]
  have hstores : ∀ key, keyStores C m' ptr key = keyStores C m ptr key := by
    intro key
    unfold keyStores
    rw [ht.keys]
  rw [hkey, hstores]
  exact ht.mem.same_stores _

theorem Twin.sealing (hC : C.Sized) (ht : Twin m m') (hk : m.SameCall k k')
    (hin : (m.hart k.hart).isEnclave = true) (hf : k.trap.regs.a6 = SBI_SM_GET_SEALING_KEY)
    (hcont : m.ContainedCall k k') :
    EqOff m.secret
      (storeAll m.mem (m.stores C k.hart k.trap.env k.info
        (.service (.sealingKey k.trap.regs.a0 k.trap.regs.a1 k.trap.regs.a2))))
      (storeAll m'.mem (m'.stores C k'.hart k'.trap.env k'.info
        (.service (.sealingKey k.trap.regs.a0 k.trap.regs.a1 k.trap.regs.a2)))) := by
  have harray := hcont.array hin hf
  have hhash' : (m'.enclaves (m'.hart k.hart).eid).hash.length = MDSIZE :=
    (congrArg List.length (ht.hash _)).trans (ht.digest _)
  rw [hk.hart, hk.info]
  rcases hcont.sealing hin hf with hw | hident
  · -- all that is stored is secret: the key goes to the EPM, the array is the monitor's data
    have hstores : ∀ (m₁ : Monitor) {hash : List Byte}, hash.length = MDSIZE →
        ∀ s ∈ m₁.sealingStores C k.info k.trap.regs.a0 k.trap.regs.a1 k.trap.regs.a2 hash,
          s.1 ∈ m.secret := by
      intro m₁ hash hlen
      rw [forall_sealingStores (P := fun a => a ∈ m.secret) C hC _ _ _ hlen]
      exact ⟨fun i hi => secret_of_inside ht.settled hin (hw i hi),
        fun i hi => Or.inl (harray i hi)⟩
    exact ht.mem.stores_within (hstores m (ht.digest _)) (hstores m' hhash')
  · intro a ha
    have hsize := length_of_data harray
    have hapart : ∀ i < k.trap.regs.a2.toNat, ∀ j < MDSIZE + k.trap.regs.a2.toNat,
        k.trap.regs.a1 + BitVec.ofNat 64 i ≠ k.info + BitVec.ofNat 64 j :=
      fun i hi j hj heq => hident i hi (Or.inl (heq ▸ harray j hj))
    have hoff : ∀ j < MDSIZE + k.trap.regs.a2.toNat, k.info + BitVec.ofNat 64 j ≠ a :=
      fun j hj heq => ha (Or.inl (heq ▸ harray j hj))
    have hplain := @mem_sealing_off_info C m k.hart k.trap.env k.info hC k.trap.regs.a0
      k.trap.regs.a1 k.trap.regs.a2 a (ht.digest _) hsize hapart hoff
    have hplain' := @mem_sealing_off_info C m' k.hart k'.trap.env k.info hC k.trap.regs.a0
      k.trap.regs.a1 k.trap.regs.a2 a hhash' hsize hapart hoff
    rw [mem_stopFree] at hplain hplain'
    rw [hplain, hplain']
    exact ht.getSealingKey hC k.hart _ _ _ hident a ha

/-! ## Calls -/

theorem keys_callStep (m : Monitor) (k : KeystoneCall) : (m.callStep C k).keys = m.keys := by
  have hrec : m.Records m.keys fun _ _ => True := ⟨rfl, fun _ => trivial⟩
  have hnext : (m.callStep C k).Records m.keys fun _ _ => True := hrec.step (fun _ _ => trivial) _
  exact hnext.keys

/-- The states after the two calls, with the memories they leave. -/
theorem Twin.next {C' : Crypto} (ht : Twin m m') (hk : m.SameCall k k')
    (hsha : ∀ text, (C.sha3 text).length = MDSIZE)
    (hkey : k.trap.regs.a6 = SBI_SM_GET_SEALING_KEY →
      (m'.smDeriveSealingKey C' k.trap.regs.a1 k.trap.regs.a2
          (m'.enclaves (m'.hart k.hart).eid).hash).isSome =
        (m.smDeriveSealingKey C k.trap.regs.a1 k.trap.regs.a2
          (m.enclaves (m.hart k.hart).eid).hash).isSome)
    (hnoTor : (m.callStep C k.toKeystoneCall).table.hasTor = false)
    (hhash : ∀ e, ((m'.callStep C' k'.toKeystoneCall).enclaves e).hash =
      ((m.callStep C k.toKeystoneCall).enclaves e).hash)
    {mem mem' : Word → Byte} (hmem : EqOff (m.callStep C k.toKeystoneCall).secret mem mem') :
    Twin { m.callStep C k.toKeystoneCall with mem := mem }
      { m'.callStep C' k'.toKeystoneCall with mem := mem' } := by
  have hsettled := m.settled_callStep C k.toKeystoneCall ht.settled (fun _ => hnoTor) (by decide)
  have hrec : m.Records m.keys fun _ hash => hash.length = MDSIZE := ⟨rfl, ht.digest⟩
  have hr : (m.callStep C k.toKeystoneCall).Records m.keys fun _ hash => hash.length = MDSIZE :=
    hrec.step (fun _ => hsha) _
  refine ⟨⟨hsettled.one, hsettled.su⟩, hnoTor, ht.core_callStep hk hkey, ?_, ?_, hr.hash, hhash,
    hmem⟩
  · exact ((keys_callStep m' _).trans ht.keys).trans (keys_callStep m _).symm
  · exact hr.keys.symm ▸ ht.sized

/-- A key is derived in both runs, though it need not be the same. -/
theorem kdf_isSome (hC : C.Sized) (ikm info : List Byte) :
    (C.kdf ikm info SEALING_KEY_SIZE).isSome = true := by
  obtain ⟨key, hkey, -⟩ := hC.kdf ikm info
  rw [hkey]
  rfl

theorem Twin.serviceOf (ht : Twin m m') (hk : m.SameCall k k') :
    m'.serviceOf k'.hart k'.trap = m.serviceOf k.hart k.trap := by
  unfold Monitor.serviceOf
  rw [if_pos k.keystone, if_pos k'.keystone, ht.request hk, hk.a0, hk.a1, hk.a2]

theorem hash_callStep (hs : m.Settled d) (k : KeystoneCall)
    (hc : m.requestOf k.hart k.trap ≠ .create) (e : Nat) :
    ((m.callStep C k).enclaves e).hash = (m.enclaves e).hash := by
  rw [callStep_eq C k hs]
  exact hash_serve (m.arrive k.hart k.trap) _ _ _ hc e

theorem table_callStep_same (hs : m.Settled d) (k : KeystoneCall)
    (hc : m.requestOf k.hart k.trap ≠ .create) (hd : m.requestOf k.hart k.trap ≠ .destroy) :
    (m.callStep C k).table = m.table := by
  rw [callStep_eq C k hs]
  exact table_serve C (m.arrive k.hart k.trap) _ _ _ hc hd

/-- A call that asks for no service. -/
theorem Twin.callStep (hC : C.Sized) (hsha : ∀ text, (C.sha3 text).length = MDSIZE) (ht : Twin m m')
    (hk : m.SameCall k k') (hcont : m.ContainedCall k k')
    (hserv : m.serviceOf k.hart k.trap = none)
    (hnoTor : (m.callStep C k.toKeystoneCall).table.hasTor = false) :
    Twin (m.callStep C k.toKeystoneCall) (m'.callStep C k'.toKeystoneCall) := by
  have hsettled := m.settled_callStep C k.toKeystoneCall ht.settled (fun _ => hnoTor) (by decide)
  obtain ⟨hcreate, -, -⟩ := request_funcid (rfl : m.requestOf k.hart k.trap = _)
  have hother : m.requestOf k.hart k.trap ≠ .attest ∧ m.requestOf k.hart k.trap ≠ .sealingKey := by
    unfold Monitor.serviceOf at hserv
    rw [if_pos k.keystone] at hserv
    constructor
    all_goals
      intro hreq
      rw [hreq] at hserv
      cases hserv
  have hmatch := (ht.arrive k.hart k'.hart k.trap k'.trap).serve (C := C) hk hcont.measured hcreate
    hother.1 hother.2
  have heq := callStep_eq C k.toKeystoneCall ht.settled
  have heq' := callStep_eq C k'.toKeystoneCall ht.settled'
  unfold served at heq heq'
  rw [ht.request hk] at heq'
  have hmem : EqOff (m.callStep C k.toKeystoneCall).secret (m.callStep C k.toKeystoneCall).mem
      (m'.callStep C k'.toKeystoneCall).mem := by
    rcases hmatch.mem with hsame | ⟨htable, hmem, hmem'⟩
    · intro a ha
      rw [heq, heq']
      exact hsame a fun hdata => ha (Or.inl hdata)
    · have hsecret : (m.callStep C k.toKeystoneCall).secret = m.secret :=
        secret_congr ht.settled hsettled (by rw [heq]; exact htable)
      have hmem₁ : (m.callStep C k.toKeystoneCall).mem = m.mem := by rw [heq]; exact hmem
      have hmem₁' : (m'.callStep C k'.toKeystoneCall).mem = m'.mem := by rw [heq']; exact hmem'
      rw [hsecret, hmem₁, hmem₁']
      exact ht.mem
  refine ht.next hk hsha (fun _ => ?_) hnoTor (fun e => ?_) hmem
  · exact (kdf_isSome hC _ _).trans (kdf_isSome hC _ _).symm
  · rw [heq, heq']
    exact hmatch.hash e

/-- What a service stores. -/
theorem Twin.serviceStores (hC : C.Sized) (ht : Twin m m') (hk : m.SameCall k k')
    (hcont : m.ContainedCall k k') :
    EqOff m.secret (storeAll m.mem (m.serviceStores C k.hart k.trap k.info))
      (storeAll m'.mem (m'.serviceStores C k'.hart k'.trap k'.info)) := by
  unfold Monitor.serviceStores
  rw [ht.serviceOf hk]
  cases hserv : m.serviceOf k.hart k.trap with
  | none => exact ht.mem
  | some call =>
    obtain ⟨-, ⟨hreq, rfl⟩ | ⟨hreq, rfl⟩⟩ := serviceOf_some hserv
    · obtain ⟨hin, hf⟩ := (request_funcid hreq).2.1 rfl
      exact ht.attest hC hk hin hf hcont
    · obtain ⟨hin, hf⟩ := (request_funcid hreq).2.2 rfl
      exact ht.sealing hC hk hin hf hcont

/-- A service derives a key in both runs or in neither. -/
theorem serviceKey_isSome (hC : C.Sized) (m m' : Monitor) (h h' : HartId) (info info' : Word)
    (call : ServiceCall) :
    (m'.serviceKey C h' info' call).isSome = (m.serviceKey C h info call).isSome := by
  cases call with
  | attest => rfl
  | sealingKey sealingKey keyIdent size =>
    exact (kdf_isSome hC _ _).trans (kdf_isSome hC _ _).symm

theorem Twin.callStepIn (hC : C.Sized) (hsha : ∀ text, (C.sha3 text).length = MDSIZE)
    (ht : Twin m m') (hk : m.SameCall k k') (hcont : m.ContainedCall k k')
    (hoff : m.KeepsOff C L k.input) (hoff' : m'.KeepsOff C L k'.input) :
    Twin (m.callStepIn C L k) (m'.callStepIn C L k') := by
  have hnoTor := hasTor_callStepIn C hoff hcont.napot ht.noTor
  have hserv' := ht.serviceOf hk
  cases hserv : m.serviceOf k.hart k.trap with
  | none =>
    have heq : m.callStepIn C L k = m.callStep C k.toKeystoneCall := stepIn_none hserv
    have heq' : m'.callStepIn C L k' = m'.callStep C k'.toKeystoneCall :=
      stepIn_none (hserv'.trans hserv)
    rw [heq] at hnoTor
    rw [heq, heq']
    exact ht.callStep hC hsha hk hcont hserv hnoTor
  | some call =>
    have hen := trapEnabled_of_settled ht.settled k.hart k.trap
    have hen' := trapEnabled_of_settled ht.settled' k'.hart k'.trap
    have heq : m.callStepIn C L k =
        { m.callStep (C.yielding (m.serviceKey C k.hart k.info call)) k.toKeystoneCall with
          mem := storeAll m.mem (m.serviceStores C k.hart k.trap k.info) } :=
      stepIn_service hserv hen (hoff hen)
    have heq' : m'.callStepIn C L k' =
        { m'.callStep (C.yielding (m'.serviceKey C k'.hart k'.info call)) k'.toKeystoneCall with
          mem := storeAll m'.mem (m'.serviceStores C k'.hart k'.trap k'.info) } :=
      stepIn_service (hserv'.trans hserv) hen' (hoff' hen')
    have hreq : m.requestOf k.hart k.trap ≠ .create ∧ m.requestOf k.hart k.trap ≠ .destroy := by
      obtain ⟨-, ⟨hreq, -⟩ | ⟨hreq, -⟩⟩ := serviceOf_some hserv
      all_goals
        rw [hreq]
        exact ⟨nofun, nofun⟩
    rw [heq] at hnoTor
    rw [heq, heq']
    have hsha₁ : ∀ text, ((C.yielding (m.serviceKey C k.hart k.info call)).sha3 text).length =
        MDSIZE := hsha
    refine ht.next hk hsha₁ (fun _ => ?_) hnoTor (fun e => ?_) ?_
    · exact serviceKey_isSome hC m m' _ _ _ _ call
    · rw [hash_callStep ht.settled k.toKeystoneCall hreq.1,
        hash_callStep ht.settled' k'.toKeystoneCall ((ht.request hk).symm ▸ hreq.1), ht.hash]
    · have hsettled := m.settled_callStep (C.yielding (m.serviceKey C k.hart k.info call))
        k.toKeystoneCall ht.settled (fun _ => hnoTor) (by decide)
      rw [secret_congr ht.settled hsettled
        (table_callStep_same ht.settled k.toKeystoneCall hreq.1 hreq.2)]
      exact ht.serviceStores hC hk hcont

/-! ## The other acts -/

theorem Twin.withMem (ht : Twin m m') {mem mem' : Word → Byte} (hmem : EqOff m.secret mem mem') :
    Twin { m with mem := mem } { m' with mem := mem' } :=
  ⟨⟨ht.settled.one, ht.settled.su⟩, ht.noTor, ht.core, ht.keys, ht.sized, ht.digest, ht.hash, hmem⟩

theorem Twin.store (ht : Twin m m') (h : HartId) (a : Word) (b : Byte)
    (hoff : m.KeepsOff C L (.store h a b)) :
    Twin (m.stepIn C L (.store h a b)) (m'.stepIn C L (.store h a b)) := by
  have hcan : m'.canStore h a ↔ m.canStore h a := by
    have hpmp : (m'.hart h).pmp = (m.hart h).pmp := congrArg HartCore.pmp (ht.hartCore h)
    have hmode : (m'.hart h).mode = (m.hart h).mode := congrArg HartCore.mode (ht.hartCore h)
    unfold canStore
    rw [hpmp, hmode]
  dsimp only [stepIn]
  by_cases hc : m.canStore h a
  · have hvars : ∀ s ∈ [(a, b)], s.1 ∉ L.vars := by
      intro s hs
      rw [List.mem_singleton.mp hs]
      exact hoff hc
    rw [if_pos hc, if_pos (hcan.mpr hc), write_off hvars, write_off hvars]
    exact ht.withMem (ht.mem.same_stores _)
  · rw [if_neg hc, if_neg (mt hcan.mp hc)]
    exact ht

theorem Twin.own (ht : Twin m m') (h : HartId) (ss ss' : List (Word × Byte))
    (hoff : ∀ s ∈ m.ownStores h ss, s.1 ∉ L.vars) (hoff' : ∀ s ∈ m'.ownStores h ss', s.1 ∉ L.vars) :
    Twin (m.write L (m.ownStores h ss)) (m'.write L (m'.ownStores h ss')) := by
  have hwithin : ∀ ss : List (Word × Byte), ∀ s ∈ m.ownStores h ss, s.1 ∈ m.secret := by
    intro ss s hs
    unfold ownStores at hs
    split at hs
    · next hin => exact secret_of_inside ht.settled hin (List.mem_filter.mp hs).2
    · cases hs
  have hsame : m'.ownStores h ss' = m.ownStores h ss' := by
    unfold ownStores
    simp only [ht.isEnclave, ht.eid, ht.inEpm]
  rw [write_off hoff, write_off hoff', hsame]
  exact ht.withMem (ht.mem.stores_within (hwithin ss) (hwithin ss'))

theorem Twin.act (hC : C.Sized) (hsha : ∀ text, (C.sha3 text).length = MDSIZE) (ht : Twin m m')
    {x x' : Act} (halike : m.Alike x x') (hcont : m.Contained C L m' x x') :
    Twin (m.act C L x) (m'.act C L x') := by
  cases halike with
  | call hk =>
    exact ht.callStepIn hC hsha hk (hcont.call _ _ rfl rfl) hcont.keeps hcont.keeps'
  | store h a b => exact ht.store (C := C) h a b hcont.keeps
  | own h ss ss' => exact ht.own h ss ss' hcont.keeps hcont.keeps'

theorem Twin.agreeOutside (ht : Twin m m') : m.AgreeOutside m' := by
  refine ⟨ht.live, fun a hdata hlive => ht.mem a ?_⟩
  rintro (hin | hin)
  · exact hdata hin
  · exact hlive hin

end Acts

/-! ## Clearing before release -/

section Scrub

variable {m : Monitor}

/-- The updates of the other harts leave memory as it is, each of them. -/
theorem mem_scanl_deliver (u : IpiUpdate) (frames : HartId → Interrupted) (gs : List HartId) :
    ∀ {m s : Monitor}, s ∈ gs.scanl (fun m g => m.deliverIpi g u (frames g)) m → s.mem = m.mem := by
  induction gs with
  | nil =>
    intro m s hs
    rw [List.scanl_nil, List.mem_singleton] at hs
    rw [hs]
  | cons g gs ih =>
    intro m s hs
    rw [List.scanl_cons, List.mem_cons] at hs
    rcases hs with rfl | hs
    · rfl
    · rw [ih hs, mem_deliverIpi]

/-- Until the EPM has been cleared, every hart has the entry for it. -/
theorem destroyStages_scrubbed {e : Nat} {E U : PmpRegion} (hl : m.core.Live d e E U)
    (hd : d ≠ .tables) (hsu : ∀ g, (m.hart g).mode = .su) (hout : ∀ g, (m.hart g).isEnclave = false)
    (h : HartId) (env : Env) {s : Monitor} (hs : s ∈ m.destroyStages h env e 0) :
    (∀ g, ∃ p, Installed E p (s.hart g).pmp) ∨ ∀ a : Word, a.toNat ∈ E.bytes → s.mem a = 0 := by
  have hrid : ((m.enclaves e).regions 0).pmpRid = 6 := by
    have hreg : (m.enclaves e).regions 0 = ⟨6, .epm⟩ := hl.present.regions.epm
    rw [hreg]
  have hx : m.table.Exclusive 6 := exclusive_slot hl.slots (Or.inl rfl)
  have hreg : m.table.regions 6 = E := (hl.slots.epm E rfl).1
  have haddr : m.table.pmpRegionGetAddr 6 = E.addr := (if_pos hx.1).trans (hreg ▸ rfl)
  have hsize : m.table.pmpRegionGetSize 6 = E.size := (if_pos hx.1).trans (hreg ▸ rfl)
  have hbefore : ∀ g, Installed E PMP_NO_PERM (m.hart g).pmp :=
    fun g => (hl.host_view (hout g) (hsu g) hd).epm
  have hopened : ∀ g, ∃ p, Installed E p
      (if g = h then (pmpSetKeystone m.table (m.hart h).pmp 6 EPMP_ALL_RW).1 else
          (m.hart g).pmp) := by
    intro g
    split
    · exact ⟨_, (hl.slots.epm_res EPMP_ALL_RW _).installed⟩
    · exact ⟨_, hbefore g⟩
  dsimp only [destroyStages] at hs
  rw [hrid, haddr, hsize] at hs
  generalize hm₁ : (m.setEnclaveCore e ((m.enclaves e).setState .destroying)).pmpSet h 6
    EPMP_ALL_RW = m₁ at hs
  have hpmp : ∀ g, (m₁.hart g).pmp =
      if g = h then (pmpSetKeystone m.table (m.hart h).pmp 6 EPMP_ALL_RW).1 else
          (m.hart g).pmp := by
    intro g
    rw [← hm₁]
    dsimp only [pmpSet, setPmp, setHart]
    split <;> rfl
  rw [List.mem_cons, List.mem_cons, List.mem_cons] at hs
  rcases hs with rfl | rfl | rfl | hs
  · exact Or.inl fun g => ⟨_, hbefore g⟩
  · refine Or.inl fun g => ?_
    rw [hpmp]
    exact hopened g
  · refine Or.inl fun g => ?_
    have hsame : ((m₁.memZero E.addr E.size).hart g).pmp = (m₁.hart g).pmp := rfl
    rw [hsame, hpmp]
    exact hopened g
  · refine Or.inr fun a ha => ?_
    rw [mem_scanl_deliver _ _ _ hs]
    exact memZero_of_mem ha

/-- The last stage is what the body of the loop comes to before it releases the region. -/
theorem destroyStages_last {e i : Nat} (hty : ((m.enclaves e).regions i).type = .epm)
    (hv : m.table.isPmpRegionValid ((m.enclaves e).regions i).pmpRid = true) (h : HartId)
    (env : Env) :
    (m.destroyStages h env e i).getLast?.map
        (fun s => s.regionFree ((m.enclaves e).regions i).pmpRid) =
      some ((m.setEnclaveCore e ((m.enclaves e).setState .destroying)).destroyRegion
          h env e i) := by
  have hregions : ((m.setEnclaveCore e ((m.enclaves e).setState .destroying)).enclaves e).regions =
      (m.enclaves e).regions := by
    dsimp only [setEnclaveCore, setEnclave]
    rw [if_pos rfl]
    rfl
  unfold destroyRegion
  dsimp only
  rw [hregions, if_neg (by rw [hty]; decide)]
  generalize hm₃ : (((m.setEnclaveCore e ((m.enclaves e).setState .destroying)).pmpSet h
    ((m.enclaves e).regions i).pmpRid EPMP_ALL_RW).memZero
      ((m.setEnclaveCore e ((m.enclaves e).setState .destroying)).table.pmpRegionGetAddr
        ((m.enclaves e).regions i).pmpRid)
      ((m.setEnclaveCore e ((m.enclaves e).setState .destroying)).table.pmpRegionGetSize
        ((m.enclaves e).regions i).pmpRid)).pmpSet h ((m.enclaves e).regions i).pmpRid
          PMP_NO_PERM = m₃
  have hv₃ : m₃.table.isPmpRegionValid ((m.enclaves e).regions i).pmpRid = true := hm₃ ▸ hv
  rw [pmpUnsetGlobal, hv₃]
  subst hm₃
  simp only [destroyStages, List.getLast?_cons, List.getLast?_scanl, Option.getD_some,
    Option.map_some, monSendSyncIpi]
  rfl

theorem scrubs (hs : m.Settled d) (hd : d ≠ .tables) (x : Act) : m.Scrubs x := by
  cases x with
  | store h a b => trivial
  | own h ss => trivial
  | call k =>
    intro e hdestroys i hi hty
    have hp : (m.core.enclaves e).present = true := (Bool.and_eq_true .. ▸ hdestroys.test).1
    rcases hs.one with hidle | ⟨e', E, U, hl⟩
    · rw [EnclaveCore.present, (hidle.unused e).state] at hp
      cases hp
    obtain rfl := hl.eq_of_present hp
    have hout := hl.outside (Core.not_running_of_destroyable hdestroys.test)
    obtain ⟨rfl, _⟩ | ⟨_, hreg⟩ := liveRegions_cases hl.present.regions hi (by
      rw [show (m.core.enclaves e).regions = (m.enclaves e).regions from rfl, hty]; decide)
    · rw [regionOf_epm hl]
      have hcore := core_arrive m k.hart k.trap
      have hrid : ((m.enclaves e).regions 0).pmpRid = 6 :=
        congrArg EnclaveRegion.pmpRid hl.present.regions.epm
      have hv : m.table.isPmpRegionValid 6 = true :=
        (hl.slots.valid 6).mpr (Or.inr (Or.inl ⟨rfl, rfl⟩))
      refine ⟨destroyStages_last (m := m.arrive k.hart k.trap) hty (hrid.symm ▸ hv)
        k.hart k.trap.env, fun s hstage => ?_⟩
      exact destroyStages_scrubbed (hcore.symm ▸ hl) hd
        (fun g => (congrArg (fun c : Core => (c.hart g).mode) hcore).trans (hs.su g))
        (fun g => (isEnclave_arrive m k.hart k.trap g).trans (hout g)) k.hart k.trap.env hstage
    · have : (m.enclaves e).regions i = ⟨7, .utm⟩ := hreg
      rw [this] at hty
      cases hty

end Scrub

/-! ## Runs -/

/-- What the enclaves keep to themselves does not outlive them, where the calls contain it: after
every act the two runs agree outside the EPMs of live enclaves, and destroying clears an EPM before
any hart loses its entry. -/
theorem secrets_die_with_enclave (hC : C.Sized) (hsha : ∀ text, (C.sha3 text).length = MDSIZE)
    (L : Layout) {keys : Keys} (hkeys : keys.Sized) (mem : Word → Byte) (acts : List (Act × Act))
    (hok : StepsOk (both (act C L))
      (fun s p => s.1.Alike p.1 p.2 ∧ s.1.Contained C L s.2 p.1 p.2)
      (bootMonitor mem keys, bootMonitor mem keys) acts) :
    Always (both (act C L)) (fun s => s.1.AgreeOutside s.2)
        (bootMonitor mem keys, bootMonitor mem keys) acts ∧
      StepsOk (both (act C L)) (fun s p => s.1.Scrubs p.1 ∧ s.2.Scrubs p.2)
        (bootMonitor mem keys, bootMonitor mem keys) acts := by
  have hboot : Twin (bootMonitor mem keys) (bootMonitor mem keys) :=
    ⟨⟨Or.inl (idle_boot mem keys), fun _ => rfl⟩, hasTor_bootTable, rfl, rfl, hkeys,
      fun e => List.length_replicate, fun e => rfl, fun a _ => rfl⟩
  have hstep : ∀ (s : Monitor × Monitor) (p : Act × Act), Twin s.1 s.2 →
      (s.1.Alike p.1 p.2 ∧ s.1.Contained C L s.2 p.1 p.2) →
      Twin (both (act C L) s p).1 (both (act C L) s p).2 :=
    fun s p ht hp => ht.act hC hsha hp.1 hp.2
  constructor
  · exact always_of_inv hstep (fun s ht => ht.agreeOutside) acts hboot hok
  · refine stepsOk_of_inv hstep (fun s p ht _ => ?_) acts hboot hok
    exact ⟨scrubs ht.settled (by decide) p.1, scrubs ht.settled' (by decide) p.2⟩

/-- Functions with results of the right size, and a key that shows the identifier it is
derived from. -/
def echoCrypto : Crypto :=
  ⟨fun _ => List.replicate MDSIZE 0, fun _ _ _ => List.replicate SIGNATURE_SIZE 0,
    fun _ info n => some ((info.drop MDSIZE ++ List.replicate n 0).take n)⟩

theorem sized_echoCrypto : echoCrypto.Sized := by
  refine ⟨fun _ _ _ => List.length_replicate, fun _ info => ⟨_, rfl, ?_⟩⟩
  rw [List.length_take, List.length_append, List.length_replicate]
  omega

theorem sized_bootKeys : bootKeys.Sized :=
  ⟨List.length_replicate, List.length_replicate, List.length_replicate, List.length_replicate⟩

/-- A call whose array `info` would be in the monitor's data. -/
def inData (k : KeystoneCall) : MemCall := ⟨k, 0x80130000⟩

/-- A call of hart 0 from inside the enclave, for a sealing key at `ptr`; the identifier lies in the
EPM. -/
def sealingCall (ptr : Word) : KeystoneCall where
  hart := 0
  trap := { callTrap SBI_SM_GET_SEALING_KEY ptr faultEnv with
    regs :=
      ((callTrap SBI_SM_GET_SEALING_KEY ptr faultEnv).regs.setGpr 11 0x90002000).setGpr 12 16 }
  keystone := isKeystone_callTrap SBI_SM_GET_SEALING_KEY ptr faultEnv

def exitCall : KeystoneCall where
  hart := 0
  trap := callTrap SBI_SM_EXIT_ENCLAVE 0 faultEnv
  keystone := isKeystone_callTrap ..

/-- The calls of an enclave that comes, is entered, asks for a key, and goes. -/
def secretCalls (ptr : Word) : List KeystoneCall :=
  [createCall 0x90000000 0x4000 0xa0000000 0x1000, runCall, sealingCall ptr, exitCall, destroyCall]

/-- In the EPM the enclave has ones or twos before it asks for the key. -/
def secretActs (ptr : Word) : List (Act × Act) :=
  let calls := (secretCalls ptr).map fun k => (Act.call (inData k), Act.call (inData k))
  let fill (b : Byte) := Act.own 0 (byteStores 0x90002000 (List.replicate 16 b))
  calls.take 2 ++ (fill 1, fill 2) :: calls.drop 2

theorem SameCall.refl (m : Monitor) {k : MemCall}
    (hk : k.trap.regs.a6 ≠ SBI_SM_ATTEST_ENCLAVE) : m.SameCall k k :=
  ⟨rfl, rfl, rfl, rfl, rfl, rfl, fun _ => rfl, fun _ => rfl, fun _ _ _ => Or.inl rfl,
    fun hf => absurd hf hk⟩

theorem alike_secretActs (ptr : Word) (s : Monitor × Monitor) :
    StepsOk (both (act echoCrypto dataLayout)) (fun s p => s.1.Alike p.1 p.2) s (secretActs ptr) :=
  ⟨.call (SameCall.refl _ (by decide)), .call (SameCall.refl _ (by decide)), .own 0 _ _,
    .call (SameCall.refl _ (by show SBI_SM_GET_SEALING_KEY ≠ SBI_SM_ATTEST_ENCLAVE; decide)),
    .call (SameCall.refl _ (by decide)), .call (SameCall.refl _ (by decide)), trivial⟩

/-- A call for a NAPOT EPM or for none, that has nothing measured and is for no service. -/
theorem ContainedCall.of_other (m : Monitor) {k : MemCall} (hnap : k.napot = true)
    (hempty : (k.createArgs.all fun args => (measuredAddrs args.params).isEmpty) = true)
    (hs : k.trap.regs.a6 ≠ SBI_SM_GET_SEALING_KEY) (ha : k.trap.regs.a6 ≠ SBI_SM_ATTEST_ENCLAVE) :
    m.ContainedCall k k := by
  refine ⟨hnap, fun args hargs a hread => ?_, fun _ hf => absurd hf hs, fun _ hf => absurd hf hs,
    fun _ hf => absurd hf ha⟩
  rw [hargs, Option.all_some, List.isEmpty_iff] at hempty
  rw [hempty] at hread
  cases hread

/-- The call for a key in the EPM. -/
theorem contained_sealingCall {m : Monitor} {ptr : Word}
    (hw : ∀ i < SEALING_KEY_SIZE + SIGNATURE_SIZE,
      m.inEpm (m.hart 0).eid (ptr + BitVec.ofNat 64 i).toNat = true) :
    m.ContainedCall (inData (sealingCall ptr)) (inData (sealingCall ptr)) := by
  have hf : (inData (sealingCall ptr)).trap.regs.a6 = SBI_SM_GET_SEALING_KEY := rfl
  have hnone : (inData (sealingCall ptr)).createArgs = none := rfl
  refine ⟨by rw [KeystoneCall.napot, hnone]; rfl, fun args hargs => ?_, fun _ _ i hi => ?_,
    fun _ _ => Or.inl hw, fun _ hattest => absurd (hf.symm.trans hattest) (by decide)⟩
  · rw [hnone] at hargs
    cases hargs
  · have hlt : i < 80 := hi
    have haddr : ((0x80130000 : Word) + BitVec.ofNat 64 i).toNat = 0x80130000 + i := by
      rw [BitVec.toNat_add, BitVec.toNat_ofNat]
      show (0x80130000 + i % 2 ^ 64) % 2 ^ 64 = _
      omega
    have hdata : 0x80130000 + i ∈ Set.Ico (0x80100000 : Nat) 0x80140000 := ⟨by omega, by omega⟩
    exact haddr.symm ▸ hdata

/-- The same enclave with a key in its own EPM. -/
theorem own_key_dies_with_enclave :
    let start := (bootMonitor (fun _ => 0) bootKeys, bootMonitor (fun _ => 0) bootKeys)
    let s := run (both (act echoCrypto dataLayout)) start ((secretActs 0x90001000).take 4)
    (s.1.mem 0x90001000 = 1 ∧ s.2.mem 0x90001000 = 2) ∧
      Always (both (act echoCrypto dataLayout)) (fun s => s.1.AgreeOutside s.2) start
        (secretActs 0x90001000) ∧
      StepsOk (both (act echoCrypto dataLayout)) (fun s p => s.1.Scrubs p.1 ∧ s.2.Scrubs p.2) start
        (secretActs 0x90001000) := by
  intro start s
  have hkeeps : StepsOk (both (act echoCrypto dataLayout))
      (fun s p => s.1.ActKeepsOff echoCrypto dataLayout p.1 ∧
        s.2.ActKeepsOff echoCrypto dataLayout p.2) start (secretActs 0x90001000) := by
    decide +kernel
  refine ⟨by decide +kernel, secrets_die_with_enclave sized_echoCrypto
    (fun _ => List.length_replicate) dataLayout sized_bootKeys (fun _ => 0)
    (secretActs 0x90001000) ?_⟩
  obtain ⟨ha₁, ha₂, ha₃, ha₄, ha₅, ha₆, -⟩ := alike_secretActs 0x90001000 start
  obtain ⟨hk₁, hk₂, hk₃, hk₄, hk₅, hk₆, -⟩ := hkeeps
  have hcall : ∀ {m m' : Monitor} {k : KeystoneCall},
      (m.ActKeepsOff echoCrypto dataLayout (.call (inData k)) ∧
        m'.ActKeepsOff echoCrypto dataLayout (.call (inData k))) →
      m.ContainedCall (inData k) (inData k) →
      m.Contained echoCrypto dataLayout m' (.call (inData k)) (.call (inData k)) := by
    rintro m m' k ⟨hk, hk'⟩ hcont
    refine ⟨hk, hk', fun k₁ k₁' heq heq' => ?_⟩
    cases heq
    cases heq'
    exact hcont
  refine ⟨⟨ha₁, hcall hk₁ ?_⟩, ⟨ha₂, hcall hk₂ ?_⟩, ⟨ha₃, ⟨hk₃.1, hk₃.2, nofun⟩⟩,
    ⟨ha₄, hcall hk₄ (contained_sealingCall ?_)⟩, ⟨ha₅, hcall hk₅ ?_⟩, ⟨ha₆, hcall hk₆ ?_⟩, trivial⟩
  · exact .of_other _ (by decide +kernel) (by decide +kernel) (by decide) (by decide)
  · exact .of_other _ rfl rfl (by decide) (by decide)
  · decide +kernel
  · exact .of_other _ rfl rfl (by decide) (by decide)
  · exact .of_other _ rfl rfl (by decide) (by decide)

/-- A key at `0xC0000000`, which is memory of the host, shows the secret after the
enclave is gone. -/
theorem sealing_key_outlives_enclave :
    let start := (bootMonitor (fun _ => 0) bootKeys, bootMonitor (fun _ => 0) bootKeys)
    let s := run (both (act echoCrypto dataLayout)) start (secretActs 0xC0000000)
    StepsOk (both (act echoCrypto dataLayout)) (fun s p => s.1.Alike p.1 p.2) start
        (secretActs 0xC0000000) ∧
      (s.1.mem 0xC0000000 = 1 ∧ s.2.mem 0xC0000000 = 2) ∧ ¬ s.1.AgreeOutside s.2 := by
  intro start s
  have hmem : s.1.mem 0xC0000000 = 1 ∧ s.2.mem 0xC0000000 = 2 := by decide +kernel
  refine ⟨alike_secretActs _ _, hmem, fun hagree => ?_⟩
  have hgone : ∀ e < ENCL_MAX, (s.1.enclaves e).state = .invalid := by decide +kernel
  have hout : (0xC0000000 : Word).toNat ∉ monitorData := by
    rw [monitorData, byteRange, Set.mem_Ico]
    decide
  have hfree : ¬ s.1.InLiveEpm (0xC0000000 : Word).toNat := by
    rintro ⟨e, he, halive, _⟩
    rw [EnclaveCore.Alive, hgone e he] at halive
    simp at halive
  have hsame := hagree.mem 0xC0000000 hout hfree
  rw [hmem.1, hmem.2] at hsame
  cases hsame

end Monitor

end Dorami.Sm
