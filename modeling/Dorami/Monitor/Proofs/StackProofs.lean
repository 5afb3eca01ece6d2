import Dorami.Monitor.Proofs.CreateProofs
import Dorami.Monitor.Proofs.RequestProofs

/-!
# What a call shows of the monitor's stack

`out_val` is declared without a value, and `a1` is loaded from it whenever the handler returns. Of
the requests only a create call that is granted and a random call assign it; the others that return
hand their caller what was on the stack. The report of an attestation is copied out with its data
part, which is filled up to the size the enclave gave.
-/

namespace Dorami.Sm

open Riscv Lib

namespace Monitor

variable (C : Crypto) (m : Monitor) (h : HartId) (t : Trap)

/-! ## What is shown -/

theorem shown_ret (hk : t.isKeystone = true) {m' : Monitor} {retval outVal : Word}
    (hs : m.served C h t = (m', .ret retval outVal)) :
    m.shown C h t = (some (retval, outVal), m'.mem) := by
  have ha0 : (m.returned h t m' retval outVal).a0 = retval := by
    unfold returned
    dsimp only
    split <;> rfl
  have ha1 : (m.returned h t m' retval outVal).a1 = outVal := by
    unfold returned
    dsimp only
    split <;> rfl
  unfold shown
  rw [trapHandler_keystone C m h t hk, hs]
  show (some ((m.returned h t m' retval outVal).a0, (m.returned h t m' retval outVal).a1),
    m'.mem) = _
  rw [ha0, ha1]

theorem shown_congr {t' : Trap} (hk : t.isKeystone = true) (hk' : t'.isKeystone = true)
    (hs : m.served C h t = m.served C h t') (hframe : frame t = frame t') :
    m.shown C h t = m.shown C h t' := by
  unfold shown
  rw [trapHandler_keystone C m h t hk, trapHandler_keystone C m h t' hk', hs]
  have hfinish : m.finish h t = m.finish h t' := by
    funext res
    rcases res with ⟨m', _ | _⟩
    · simp only [finish, returned, hframe]
    · rfl
  rw [hfinish]

/-- A create call gives an id exactly if it is granted. -/
theorem sbiSmCreateEnclave_cases (env : Env) (a0 : Word) :
    (∃ m' eid, m.sbiSmCreateEnclave C h env a0 = (m', .ok eid) ∧
      ∃ args, copyEnclaveCreateArgs env a0 = .ok args ∧ m.grants args = true) ∨
    (∃ m' status, m.sbiSmCreateEnclave C h env a0 = (m', .error status) ∧
      ∀ args, copyEnclaveCreateArgs env a0 = .ok args → m.grants args = false) := by
  unfold sbiSmCreateEnclave
  dsimp only
  cases hcopy : copyEnclaveCreateArgs env a0 with
  | error status =>
    refine Or.inr ⟨_, status, rfl, fun args hargs => ?_⟩
    cases hargs
  | ok args =>
    dsimp only
    generalize hm1 : (m.osmPmpSet h (PMP_R ||| PMP_W)).osmPmpSet h (PMP_X ||| PMP_W ||| PMP_R) = m1
    have hgrants : m1.grants args = m.grants args := by
      rw [← hm1]
      rfl
    rcases m1.createEnclave_cases C h env args with ⟨hg, eid, _, _, _, _, _, hok⟩ |
      ⟨hg, status, herr, _⟩
    · refine Or.inl ⟨_, eid, by rw [← hok], args, rfl, ?_⟩
      rw [← hgrants, hg]
    · refine Or.inr ⟨_, status, by rw [← herr], fun args' hargs => ?_⟩
      cases hargs
      rw [← hgrants, hg]

/-! ## Requests that return what was on the stack -/

/-- The value of `out_val` that a call hands back is the one on the stack. -/
def ShowsOutVal : Prop :=
  ∀ outVal data, ∃ m' retval, m.served C h (t.withStack outVal data) = (m', .ret retval outVal)

theorem not_hidesStack (hk : t.isKeystone = true) (hshow : m.ShowsOutVal C h t) :
    ¬ m.HidesStack C h t := by
  intro hhide
  obtain ⟨data, hlen⟩ : ∃ data : List Byte, data.length = ATTEST_DATA_MAXLEN.toNat :=
    ⟨List.replicate _ 0, List.length_replicate⟩
  have heq := hhide 0 1 data data hlen hlen
  obtain ⟨m₀, v₀, h₀⟩ := hshow 0 data
  obtain ⟨m₁, v₁, h₁⟩ := hshow 1 data
  rw [shown_ret C m h (t.withStack 0 data) hk h₀, shown_ret C m h (t.withStack 1 data) hk h₁] at heq
  have ha1 : (0 : Word) = 1 := by
    have := congrArg (fun x : Option (Word × Word) × (Word → Byte) => x.1.map Prod.snd) heq
    exact Option.some.inj this
  exact absurd ha1 (by decide)

theorem showsOutVal (hfill : m.fillsOutVal h t = false) : m.ShowsOutVal C h t := by
  intro outVal data
  show ∃ m' retval, (m.arrive h t).serve C h (frame t) (t.withStack outVal data).env
    (m.requestOf h t) = (m', .ret retval outVal)
  unfold fillsOutVal at hfill
  cases hreq : m.requestOf h t with
  | refused status => exact ⟨_, _, rfl⟩
  | destroy => exact ⟨_, _, rfl⟩
  | attest => exact ⟨_, _, rfl⟩
  | sealingKey => exact ⟨_, _, rfl⟩
  | create =>
    rw [hreq] at hfill
    rcases (m.arrive h t).sbiSmCreateEnclave_cases C h (t.withStack outVal data).env (frame t).a0
      with ⟨m', eid, _, args, hcopy, hg⟩ | ⟨m', status, herr, _⟩
    · have hcopy' : copyEnclaveCreateArgs t.env t.regs.a0 = .ok args := hcopy
      have hg' : m.grants args = true := hg
      rw [hcopy'] at hfill
      dsimp only at hfill
      rw [hg'] at hfill
      cases hfill
    · refine ⟨m', status.code, ?_⟩
      simp only [serve, herr]
      rfl
  | run | resume | random | stop | exit => rw [hreq] at hfill; cases hfill

/-! ## Requests that do not -/

theorem served_withStack (hfill : m.fillsOutVal h t = true) (outVal : Word) (data : List Byte) :
    m.served C h (t.withStack outVal data) = m.served C h t := by
  show (m.arrive h t).serve C h (frame t) (t.withStack outVal data).env (m.requestOf h t) =
    (m.arrive h t).serve C h (frame t) t.env (m.requestOf h t)
  unfold fillsOutVal at hfill
  cases hreq : m.requestOf h t with
  | refused | destroy | attest | sealingKey => rw [hreq] at hfill; cases hfill
  | run | resume | random | stop | exit => rfl
  | create =>
    rw [hreq] at hfill
    have hsame : (m.arrive h t).sbiSmCreateEnclave C h (t.withStack outVal data).env (frame t).a0 =
        (m.arrive h t).sbiSmCreateEnclave C h t.env (frame t).a0 := rfl
    unfold serve
    dsimp only
    rw [hsame]
    rcases (m.arrive h t).sbiSmCreateEnclave_cases C h t.env (frame t).a0 with
      ⟨m', eid, hok, _⟩ | ⟨m', status, _, hno⟩
    · rw [hok]
    · have hno' : ∀ args, copyEnclaveCreateArgs t.env t.regs.a0 = .ok args →
          m.grants args = false := hno
      cases hcopy : copyEnclaveCreateArgs t.env t.regs.a0 with
      | error status => rw [hcopy] at hfill; cases hfill
      | ok args =>
        rw [hcopy] at hfill
        dsimp only at hfill
        rw [hno' args hcopy] at hfill
        cases hfill

/-- What a Keystone call shows its caller does not depend on the stack exactly if the call assigns
`out_val` or does not return through it. -/
theorem call_hides_stack_iff (hk : t.isKeystone = true) :
    m.HidesStack C h t ↔ m.fillsOutVal h t = true := by
  constructor
  · intro hhide
    by_contra hfill
    rw [Bool.not_eq_true] at hfill
    exact not_hidesStack C m h t hk (showsOutVal C m h t hfill) hhide
  · intro hfill outVal outVal' data data' _ _
    refine shown_congr C m h _ hk hk ?_ rfl
    rw [served_withStack C m h t hfill, served_withStack C m h t hfill]

theorem shown_mem (hk : t.isKeystone = true) : (m.shown C h t).2 = (m.served C h t).1.mem := by
  unfold shown
  rw [trapHandler_keystone C m h t hk]
  rcases m.served C h t with ⟨m', _ | _⟩ <;> rfl

theorem copyFromSm_congr (env env' : Env) (hstore : env.store = env'.store) (bytes : List Byte) :
    ∀ mem dst, copyFromSm env mem dst bytes = copyFromSm env' mem dst bytes := by
  induction bytes with
  | nil => intro mem dst; rfl
  | cons b bs ih =>
    intro mem dst
    unfold copyFromSm
    rw [hstore]
    cases env'.store dst with
    | none => rfl
    | some pa => exact ih _ _

/-- With a report whose data part is full nothing of the stack is left in it. -/
theorem attestEnclave_withStack (reportPtr data size : Word) (eid : Nat) (env : Env)
    (hsize : ATTEST_DATA_MAXLEN ≤ size) (outVal outVal' : Word) {bytes bytes' : List Byte}
    (hlen : bytes.length = ATTEST_DATA_MAXLEN.toNat)
    (hlen' : bytes'.length = ATTEST_DATA_MAXLEN.toNat) :
    m.attestEnclave C h { env with outVal := outVal, reportData := bytes } reportPtr data size eid =
      m.attestEnclave C h { env with outVal := outVal', reportData := bytes' } reportPtr data size
        eid := by
  rw [BitVec.le_def] at hsize
  unfold attestEnclave
  dsimp only
  rw [List.drop_eq_nil_of_le (by omega), List.drop_eq_nil_of_le (by omega)]
  have hcopy : ∀ mem dst report,
      copyFromSm { env with outVal := outVal, reportData := bytes } mem dst report =
        copyFromSm { env with outVal := outVal', reportData := bytes' } mem dst report :=
    fun mem dst report => copyFromSm_congr _ _ (by rfl) report mem dst
  simp only [hcopy]
  rfl

/-- The memory a call writes does not depend on the stack, but for an attestation of less data than
a report can hold. -/
theorem written_memory_hides_stack (hk : t.isKeystone = true)
    (hfull : m.requestOf h t = .attest → ATTEST_DATA_MAXLEN ≤ t.regs.a2) (outVal outVal' : Word)
    {data data' : List Byte} (hlen : data.length = ATTEST_DATA_MAXLEN.toNat)
    (hlen' : data'.length = ATTEST_DATA_MAXLEN.toNat) :
    (m.shown C h (t.withStack outVal data)).2 = (m.shown C h (t.withStack outVal' data')).2 := by
  rw [shown_mem C m h (t.withStack outVal data) hk, shown_mem C m h (t.withStack outVal' data') hk]
  show ((m.arrive h t).serve C h (frame t) (t.withStack outVal data).env (m.requestOf h t)).1.mem =
    ((m.arrive h t).serve C h (frame t) (t.withStack outVal' data').env (m.requestOf h t)).1.mem
  cases hreq : m.requestOf h t with
  | refused | destroy | sealingKey | run | resume | random | stop | exit => rfl
  | attest =>
    have hsame := attestEnclave_withStack C (m.arrive h t) h (frame t).a0 (frame t).a1
      t.regs.a2 ((m.arrive h t).hart h).eid t.env (hfull hreq) outVal outVal' hlen hlen'
    exact congrArg (fun r : Monitor × SmStatus => r.1.mem) hsame
  | create =>
    have hsame : (m.arrive h t).sbiSmCreateEnclave C h (t.withStack outVal data).env (frame t).a0 =
        (m.arrive h t).sbiSmCreateEnclave C h (t.withStack outVal' data').env (frame t).a0 := rfl
    unfold serve
    dsimp only
    rw [hsame]
    rcases (m.arrive h t).sbiSmCreateEnclave C h (t.withStack outVal' data').env (frame t).a0 with
      ⟨m', _ | _⟩ <;> rfl

/-- A create call that is granted. -/
theorem granted_create_hides_stack :
    let k := createCall 0x90000000 0x4000 0xa0000000 0x1000
    k.trap.isKeystone = true ∧ HidesStack noCrypto (bootMonitor (fun _ => 0) noKeys) 0 k.trap :=
  let k := createCall 0x90000000 0x4000 0xa0000000 0x1000
  ⟨k.keystone, (call_hides_stack_iff noCrypto _ 0 k.trap k.keystone).mpr (by decide +kernel)⟩

/-- A run call of hart 0 for enclave 0. -/
def runCall : KeystoneCall where
  hart := 0
  trap := callTrap SBI_SM_RUN_ENCLAVE 0 faultEnv
  keystone := isKeystone_callTrap ..

/-- A deprecated call returns `out_val` in `a1`, and the report of an attestation without data holds
what was on the stack. -/
theorem calls_show_stack :
    (let m := bootMonitor (fun _ => 0) noKeys
     let t := callTrap 0 0 faultEnv
     t.isKeystone = true ∧ ¬ m.HidesStack noCrypto 0 t ∧
       (m.shown noCrypto 0 (t.withStack 7 (List.replicate 1024 0))).1 =
         some (SmStatus.deprecated.code, 7)) ∧
    (let ks := [createCall 0x90000000 0x4000 0xa0000000 0x1000, runCall]
     let m := run (callStep noCrypto) (bootMonitor (fun _ => 0) noKeys) ks
     let t := callTrap SBI_SM_ATTEST_ENCLAVE 0x90000000 { faultEnv with store := some }
     t.isKeystone = true ∧ ¬ m.HidesStack noCrypto 0 t ∧
       (m.shown noCrypto 0 (t.withStack 0 (List.replicate 1024 0))).2 0x90000008 = 0 ∧
       (m.shown noCrypto 0 (t.withStack 0 (List.replicate 1024 7))).2 0x90000008 = 7) := by
  refine ⟨⟨?_, ?_, ?_⟩, ?_, ?_, ?_, ?_⟩
  · exact isKeystone_callTrap ..
  · exact not_hidesStack _ _ _ _ (isKeystone_callTrap ..) (showsOutVal _ _ _ _ (by decide +kernel))
  · decide +kernel
  · exact isKeystone_callTrap ..
  · exact not_hidesStack _ _ _ _ (isKeystone_callTrap ..) (showsOutVal _ _ _ _ (by decide +kernel))
  · decide +kernel
  · decide +kernel

end Monitor

end Dorami.Sm
