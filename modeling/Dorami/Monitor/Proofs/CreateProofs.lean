import Dorami.Monitor.Calls
import Dorami.Monitor.Proofs.MachineMemoryProofs

/-!
# A create call that fails

`create_enclave` takes an id, the EPM and the UTM one after the other, and gives back what it
has when the next one is refused. Once it has all three nothing fails any more. Giving a region
back undoes its creation because an unused slot is always clear, and because the registers of
the EPM were free.
-/

namespace Dorami.Sm

open Riscv Lib

/-! ## Creating and releasing a region -/

section Table

variable {t t' : PmpTable} {start size : Word} {rid : Nat}

end Table

/-! ## The outcomes of `create_enclave` -/

namespace Monitor

variable (C : Crypto) (m : Monitor) (h : HartId) (env : Env) (args : CreateArgs)

theorem setEnclaveCore_twice (eid : Nat) (en en' : EnclaveCore) :
    (m.setEnclaveCore eid en).setEnclaveCore eid en' = m.setEnclaveCore eid en' := by
  unfold setEnclaveCore setEnclave
  congr 1
  funext e
  by_cases he : e = eid <;> simp [he]

/-- Taking an id and giving it back changes nothing. -/
theorem alloc_free {eid : Nat} (hst : (m.enclaves eid).state = .invalid) :
    (m.setEnclaveCore eid ((m.enclaves eid).setState .allocated)).enclFreeEid eid = m := by
  have hself : ((m.setEnclaveCore eid ((m.enclaves eid).setState .allocated)).enclaves
      eid).toEnclaveCore = (m.enclaves eid).setState .allocated := by
    simp [setEnclaveCore, setEnclave]
  unfold enclFreeEid
  rw [hself, setEnclaveCore_twice]
  unfold setEnclaveCore setEnclave
  have hfun : (fun e => if e = eid then { m.enclaves eid with
      toEnclaveCore := ((m.enclaves eid).setState .allocated).setState .invalid } else
        m.enclaves e) = m.enclaves := by
    funext e
    by_cases he : e = eid
    · rw [if_pos he, he]
      simp only [EnclaveCore.setState, ← hst]
    · rw [if_neg he]
  rw [hfun]

/-- What a create call that is granted gets, before it builds the enclave. -/
structure Granted (eid region shared : Nat) (t' : PmpTable) : Prop where
  free : (m.enclaves eid).state = .invalid
  lt : eid < ENCL_MAX
  epm : ∃ t, m.table.pmpRegionInit args.epmPaddr args.epmSize .any false = (t, .ok region) ∧
    t.pmpRegionInit args.utmPaddr args.utmSize .bottom false = (t', .ok shared)

theorem Granted.valid {m : Monitor} {args : CreateArgs} {eid region shared : Nat} {t' : PmpTable}
    (hg : m.Granted args eid region shared t') : t'.isPmpRegionValid region = true := by
  obtain ⟨t, hepm, hutm⟩ := hg.epm
  obtain ⟨E, hE⟩ := pmpRegionInit_ok hepm
  obtain ⟨U, hU⟩ := pmpRegionInit_ok hutm
  rw [hU.adds.valid, hE.adds.valid]
  simp

/-- The part that builds the enclave does not fail. -/
theorem buildEnclave_ok {eid region shared : Nat} (hv : m.table.isPmpRegionValid region = true) :
    (m.buildEnclave C h env args eid region shared).2 = .ok eid := by
  unfold buildEnclave
  rw [pmpSetGlobal_valid _ _ _ _ hv]
  rfl

/-- A create call that is granted builds the enclave; one that is not leaves a table from which the
EPM has been taken away again. -/
theorem createEnclave_cases :
    (m.grants args = true ∧ ∃ eid region shared t', m.Granted args eid region shared t' ∧
      m.createEnclave C h env args =
        buildEnclave { m.setEnclaveCore eid ((m.enclaves eid).setState .allocated) with
          table := t' } C h env args eid region shared ∧
      (m.createEnclave C h env args).2 = .ok eid) ∨
    (m.grants args = false ∧ ∃ status, (m.createEnclave C h env args).2 = .error status ∧
      ((m.createEnclave C h env args).1 = m ∨ ∃ t region,
        m.table.pmpRegionInit args.epmPaddr args.epmSize .any false = (t, .ok region) ∧
        (m.createEnclave C h env args).1 = { m with table := (t.pmpRegionFree region).1 })) := by
  unfold grants createEnclave enclAllocEid
  cases hvalid : isCreateArgsValid args with
  | false => exact Or.inr ⟨rfl, _, rfl, Or.inl rfl⟩
  | true =>
  cases hfind : (List.range ENCL_MAX).find? fun eid => (m.enclaves eid).state == .invalid with
  | none =>
    have hany : ((List.range ENCL_MAX).any fun e => (m.enclaves e).state == .invalid) = false := by
      rw [List.find?_eq_none] at hfind
      rw [List.any_eq_false]
      exact hfind
    refine Or.inr ⟨?_, _, rfl, Or.inl rfl⟩
    rw [hany]
    rfl
  | some eid =>
  have hst : (m.enclaves eid).state = .invalid := by simpa using List.find?_some hfind
  have hmem : eid ∈ List.range ENCL_MAX := List.mem_of_find?_eq_some hfind
  have hany : ((List.range ENCL_MAX).any fun e => (m.enclaves e).state == .invalid) = true :=
    List.any_eq_true.mpr ⟨eid, hmem, by rw [hst]; rfl⟩
  rw [hany]
  dsimp only [regionInit]
  generalize hm1 : m.setEnclaveCore eid ((m.enclaves eid).setState .allocated) = m1
  have htable : m1.table = m.table := by rw [← hm1]; rfl
  have hback : m1.enclFreeEid eid = m := by rw [← hm1]; exact m.alloc_free hst
  rw [htable]
  rcases hepm : m.table.pmpRegionInit args.epmPaddr args.epmSize .any false with ⟨t, e | region⟩
  · obtain rfl := pmpRegionInit_error hepm
    refine Or.inr ⟨rfl, _, rfl, Or.inl ?_⟩
    show ({ m1 with table := m.table } : Monitor).enclFreeEid eid = m
    rw [← htable]
    exact hback
  dsimp only
  rcases hutm : t.pmpRegionInit args.utmPaddr args.utmSize .bottom false with ⟨t', e | shared⟩
  · obtain rfl := pmpRegionInit_error hutm
    refine Or.inr ⟨rfl, _, rfl, Or.inr ⟨t', region, rfl, ?_⟩⟩
    show ({ m1 with table := (t'.pmpRegionFree region).1 } : Monitor).enclFreeEid eid = _
    have hcommute : ({ m1 with table := (t'.pmpRegionFree region).1 } : Monitor).enclFreeEid eid =
        { m1.enclFreeEid eid with table := (t'.pmpRegionFree region).1 } := rfl
    rw [hcommute, hback]
  · obtain ⟨E, hE⟩ := pmpRegionInit_ok hepm
    obtain ⟨U, hU⟩ := pmpRegionInit_ok hutm
    have hv : t'.isPmpRegionValid region = true := by
      rw [hU.adds.valid, hE.adds.valid]
      simp
    refine Or.inl ⟨rfl, eid, region, shared, t',
      ⟨hst, List.mem_range.mp hmem, t, hepm, hutm⟩, ?_, ?_⟩
    · rw [hm1]
      rfl
    · exact buildEnclave_ok C _ h env args hv

/-- A destroy call of hart 0 for enclave 0. -/
def destroyCall : KeystoneCall where
  hart := 0
  trap := callTrap SBI_SM_DESTROY_ENCLAVE 0 faultEnv
  keystone := isKeystone_callTrap ..

end Monitor

end Dorami.Sm
