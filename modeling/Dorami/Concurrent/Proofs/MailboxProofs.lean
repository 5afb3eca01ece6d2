import Dorami.Concurrent.Mailbox
import Mathlib.Order.Fin.Basic

/-!
# Each PMP update reaches each hart once

A sender and a receiver meet in one mailbox. `Handshake` lists the combinations they can be in: how
far the sender has come (`Stage`), the two flags of the receiver, what the receiver has applied, and
which access of `mon_ipi_check` it has come to. The lemmas of `Handshake` are about one access of
one of the two. A step of a hart is an access of one pair, or of all the pairs of one sender, and
leaves the other pairs as they are.
-/

namespace Dorami.Sm

open Riscv Lib

/-- After a round the loop goes on to the next one, or all rounds are over. -/
theorem afterRound_cases {n : Nat} {α : Type*} {P : α → Prop} {i : Fin n} {next : Fin n → α}
    {last : α} (hnext : ∀ j, (∀ g, g < j ↔ g ≤ i) → P (next j)) (hlast : (∀ g, g ≤ i) → P last) :
    P (afterRound i next last) := by
  unfold afterRound
  split_ifs with hlt
  · refine hnext _ fun g => ?_
    rw [Fin.lt_def, Fin.le_def]
    exact Nat.lt_succ_iff
  · refine hlast fun g => ?_
    rw [Fin.le_def]
    omega

/-- How far a sender has come with one receiver: it has not called, has not set `data_valid`, has
set it, has seen the acknowledgement, has cleared `data_valid`, has cleared `data_ready`. -/
inductive Stage where
  | quiet
  | filling
  | posted
  | acked
  | half
  | cleared

def SendPc.stage (g : HartId) : SendPc → Stage
  | .perm | .region | .type => .filling
  | .post i => if g < i then .posted else .filling
  | .wait i => if g < i then .acked else .posted
  | .resend _ => .posted
  | .clearPerm | .clearRegion | .clearType => .acked
  | .clearValid i => if g < i then .cleared else .acked
  | .clearReady i => if g < i then .cleared else if g = i then .half else .acked
  | .done => .cleared

def IpiPc.stage (g : HartId) : IpiPc → Stage
  | .send _ p => p.stage g
  | _ => .quiet

/-- The access to mailbox `i` that comes next, once `data_valid` has been read. -/
def IpiPc.recv (i : Fin 5) : IpiPc → Option RecvPc
  | .check _ .valid => none
  | .check j p => if j = i then some p else none
  | _ => none

/-- The combinations in which a sender and a receiver can be. -/
inductive Handshake : Option IpiRequest → Stage → Bool → Bool → List LocalUpdate →
    Option RecvPc → Prop
  | never : Handshake none .quiet false false [] none
  | over (r : IpiRequest) : Handshake (some r) .quiet false false [r.update] none
  | filling (r : IpiRequest) : Handshake (some r) .filling false false [] none
  | posted (r : IpiRequest) : Handshake (some r) .posted true false [] none
  | found (r : IpiRequest) : Handshake (some r) .posted true false [] (some .ready)
  | taken (r : IpiRequest) : Handshake (some r) .posted true false [] (some .type)
  | typed (r : IpiRequest) :
      Handshake (some r) .posted true false [] (some (.region (decide (r.type = 0))))
  | placed (r : IpiRequest) (hset : r.type = 0) :
      Handshake (some r) .posted true false [] (some (.perm r.regionIdx))
  | read (r : IpiRequest) : Handshake (some r) .posted true false [] (some (.apply r.update))
  | applied (r : IpiRequest) : Handshake (some r) .posted true false [r.update] (some .ack)
  | ready (r : IpiRequest) : Handshake (some r) .posted true true [r.update] none
  | readyFound (r : IpiRequest) : Handshake (some r) .posted true true [r.update] (some .ready)
  | acked (r : IpiRequest) : Handshake (some r) .acked true true [r.update] none
  | ackedFound (r : IpiRequest) : Handshake (some r) .acked true true [r.update] (some .ready)
  | half (r : IpiRequest) : Handshake (some r) .half false true [r.update] none
  | halfFound (r : IpiRequest) : Handshake (some r) .half false true [r.update] (some .ready)
  | cleared (r : IpiRequest) : Handshake (some r) .cleared false false [r.update] none

namespace Handshake

variable {q : Option IpiRequest} {r : IpiRequest} {t : Stage} {valid ready : Bool}
  {log : List LocalUpdate} {e : Option RecvPc}

/-! ## The accesses of the receiver -/

theorem look (h : Handshake q t true ready log none) :
    Handshake q t true ready log (some .ready) := by
  cases h <;> constructor

theorem pass (h : Handshake q t valid true log (some .ready)) :
    Handshake q t valid true log none := by
  cases h <;> constructor

theorem take (h : Handshake q t valid false log (some .ready)) :
    Handshake q t valid false log (some .type) := by
  cases h
  constructor

theorem readType (h : Handshake (some r) t valid ready log (some .type)) :
    Handshake (some r) t valid ready log (some (.region (decide (r.type = 0)))) := by
  cases h
  constructor

theorem readRegion {set : Bool} (h : Handshake (some r) t valid ready log (some (.region set))) :
    Handshake (some r) t valid ready log
      (some (if set then .perm r.regionIdx else .apply (.unset r.regionIdx))) := by
  cases h
  by_cases hset : r.type = 0
  · simp only [hset, decide_true, if_true]
    exact placed r hset
  · have hu : r.update = .unset r.regionIdx := if_neg hset
    simp only [hset, decide_false, Bool.false_eq_true, if_false]
    exact hu ▸ read r

theorem readPerm {v : Int} (h : Handshake (some r) t valid ready log (some (.perm v))) :
    Handshake (some r) t valid ready log (some (.apply (.setKeystone v r.perm))) := by
  cases h with
  | placed _ hset =>
    have hu : r.update = .setKeystone r.regionIdx r.perm := if_pos hset
    exact hu ▸ read r

theorem apply {u : LocalUpdate} (h : Handshake q t valid ready log (some (.apply u))) :
    Handshake q t valid ready (log ++ [u]) (some .ack) := by
  cases h
  constructor

theorem acknowledge (h : Handshake q t valid ready log (some .ack)) :
    Handshake q t valid true log none := by
  cases h
  constructor

/-- The receiver reads the fields only while the sender waits for it. -/
theorem waits {p : RecvPc} (h : Handshake q t valid ready log (some p)) (hp : p ≠ .ready) :
    t = .posted := by
  cases h <;> first | rfl | exact absurd rfl hp

/-! ## The accesses of the sender -/

theorem call (h : Handshake q .quiet valid ready log e) (r : IpiRequest) :
    Handshake (some r) .filling valid ready [] e := by
  cases h <;> constructor

theorem post (h : Handshake q .filling valid ready log e) :
    Handshake q .posted true ready log e := by
  cases h
  constructor

theorem seen (h : Handshake q .posted valid true log e) : Handshake q .acked valid true log e := by
  cases h <;> constructor

theorem again (h : Handshake q .acked valid ready log e) :
    Handshake q .posted valid ready log e := by
  cases h <;> constructor

theorem clearValid (h : Handshake q .acked valid ready log e) :
    Handshake q .half false ready log e := by
  cases h <;> constructor

theorem clearReady (h : Handshake q .half valid ready log e) (he : e ≠ some .ready) :
    Handshake q .cleared valid false log e := by
  cases h with
  | half r => constructor
  | halfFound r => exact absurd rfl he

theorem back (h : Handshake q .cleared valid ready log e) :
    Handshake q .quiet valid ready log e := by
  cases h
  constructor

/-! ## What they amount to -/

theorem log_of_cleared (h : Handshake (some r) .cleared valid ready log e) :
    log = [r.update] ∧ valid = false ∧ ready = false := by
  cases h
  exact ⟨rfl, rfl, rfl⟩

theorem log_cases (h : Handshake q t valid ready log e) :
    log = [] ∨ ∃ r, q = some r ∧ log = [r.update] := by
  cases h <;> first | exact .inl rfl | exact .inr ⟨_, rfl, rfl⟩

end Handshake

namespace Mailboxes

variable {s : Mailboxes} {h g : HartId} {i : Fin 5}

/-- What the sender has written to its mailbox. -/
def Fields (c : MonIpiCand) : IpiPc → Prop
  | .send r .region => c.perm = r.perm
  | .send r .type => c.perm = r.perm ∧ c.regionIdx = r.regionIdx
  | .send r (.post _) | .send r (.wait _) | .send r (.resend _) =>
    c.perm = r.perm ∧ c.regionIdx = r.regionIdx ∧ c.type = r.type
  | .send _ .clearRegion => c.perm = 0
  | .send _ .clearType => c.perm = 0 ∧ c.regionIdx = 0
  | .send _ (.clearValid _) | .send _ (.clearReady _) | .send _ .done =>
    c.perm = 0 ∧ c.regionIdx = 0 ∧ c.type = 0
  | _ => True

/-- The handshake of sender `h` and receiver `g`. -/
def Pair (s : Mailboxes) (h g : HartId) : Prop :=
  Handshake (s.request h) ((s.pc h).stage g) ((s.ipiUpdates h.succ).dataValid g)
    ((s.ipiUpdates h.succ).dataReady g) (s.applied g h.succ) ((s.pc g).recv h.succ)

/-- Hart `g` is not sent anything through mailbox `i`. -/
def Unused (s : Mailboxes) (g : HartId) (i : Fin 5) : Prop :=
  (s.ipiUpdates i).dataValid g = false ∧ (s.pc g).recv i = none ∧ s.applied g i = []

structure Inv (s : Mailboxes) : Prop where
  request : ∀ h r p, s.pc h = .send r p → s.request h = some r
  fields : ∀ h, Fields (s.ipiUpdates h.succ) (s.pc h)
  pair : ∀ h g, g ≠ h → s.Pair h g
  /-- Mailbox 0, and the mailbox of the hart itself. -/
  unused : ∀ g i, (∀ h : HartId, i = h.succ → g = h) → s.Unused g i
  cleared : ∀ h, (s.pc h).stage h = .cleared → (s.ipiUpdates h.succ).dataReady h = false

theorem inv_boot : Inv boot where
  request _ _ _ hpc := nomatch hpc
  fields _ := trivial
  pair _ _ _ := .never
  unused _ _ _ := ⟨rfl, rfl, rfl⟩
  cleared _ hc := nomatch hc

/-- The claimed property follows from the invariant. -/
theorem Inv.delivered (hi : Inv s) : Delivered s := by
  have hlog : ∀ g i, s.applied g i = [] ∨
      ∃ h r, i = h.succ ∧ s.request h = some r ∧ s.applied g i = [r.update] := by
    intro g i
    by_cases hown : ∀ h : HartId, i = h.succ → g = h
    · exact .inl (hi.unused g i hown).2.2
    · push Not at hown
      obtain ⟨h, rfl, hne⟩ := hown
      rcases (hi.pair h g hne).log_cases with hnil | ⟨r, hr, hone⟩
      · exact .inl hnil
      · exact .inr ⟨h, r, rfl, hr, hone⟩
  refine ⟨fun h r hpc => ?_, fun g i u hu => ?_, fun g i => ?_⟩
  · have hpair : ∀ g, g ≠ h → s.applied g h.succ = [r.update] ∧
        (s.ipiUpdates h.succ).dataValid g = false ∧ (s.ipiUpdates h.succ).dataReady g = false := by
      intro g hg
      have hp := hi.pair h g hg
      unfold Pair at hp
      rw [hi.request h r _ hpc, hpc] at hp
      exact Handshake.log_of_cleared hp
    have hown := (hi.unused h h.succ fun k hk => Fin.succ_inj.mp hk).1
    have hready := hi.cleared h (by rw [hpc]; rfl)
    have hfields := hi.fields h
    rw [hpc] at hfields
    obtain ⟨hperm, hregion, htype⟩ := hfields
    refine ⟨fun g hg => (hpair g hg).1, ?_⟩
    generalize s.ipiUpdates h.succ = c at *
    obtain ⟨valid, ready, region, type, perm⟩ := c
    obtain rfl : perm = 0 := hperm
    obtain rfl : region = 0 := hregion
    obtain rfl : type = 0 := htype
    have hv : valid = fun _ => false := by
      funext g
      by_cases hg : g = h
      · exact hg ▸ hown
      · exact (hpair g hg).2.1
    have hr : ready = fun _ => false := by
      funext g
      by_cases hg : g = h
      · exact hg ▸ hready
      · exact (hpair g hg).2.2
    rw [hv, hr]
    rfl
  · rcases hlog g i with hnil | ⟨h, r, hs, hr, hone⟩
    · rw [hnil] at hu
      exact absurd hu List.not_mem_nil
    · rw [hone] at hu
      exact ⟨h, r, hs, hr, List.mem_singleton.mp hu⟩
  · rcases hlog g i with hnil | ⟨h, r, _, _, hone⟩
    · rw [hnil]
      exact Nat.zero_le 1
    · rw [hone]
      exact Nat.le_refl 1

/-! ## A step of a receiver -/

/-- An access of `mon_ipi_check` on hart `g` to mailbox `i`: what the hart has applied out of it,
the flag `data_ready` and the pc of the hart afterwards. -/
def received (s : Mailboxes) (g : HartId) (i : Fin 5) (log : List LocalUpdate) (ready : Bool)
    (pc : IpiPc) : Mailboxes :=
  let c := s.ipiUpdates i
  ⟨Function.update s.ipiUpdates i { c with dataReady := Function.update c.dataReady g ready },
    Function.update s.pc g pc, s.request,
    Function.update s.applied g (Function.update (s.applied g) i log)⟩

theorem received_goto (pc : IpiPc) :
    s.goto g pc = s.received g i (s.applied g i) ((s.ipiUpdates i).dataReady g) pc := by
  simp [goto, received]

theorem fields_received {c : MonIpiCand} {ready : HartId → Bool} {pc : IpiPc} (hf : Fields c pc) :
    Fields { c with dataReady := ready } pc := by
  unfold Fields at hf ⊢
  exact hf

/-- The hart runs `mon_ipi_check`, or is about to leave it. -/
def Checks (pc : IpiPc) : Prop := ∀ r p, pc ≠ .send r p

theorem stage_of_checks {pc : IpiPc} (hpc : Checks pc) (g : HartId) : pc.stage g = .quiet := by
  cases pc with
  | send r p => exact absurd rfl (hpc r p)
  | _ => rfl

theorem fields_of_checks {pc : IpiPc} (hpc : Checks pc) (c : MonIpiCand) : Fields c pc := by
  cases pc with
  | send r p => exact absurd rfl (hpc r p)
  | _ => trivial

section Received

variable {log : List LocalUpdate} {ready : Bool} {pc : IpiPc}

@[simp] theorem received_pc : (s.received g i log ready pc).pc = Function.update s.pc g pc := rfl

@[simp] theorem received_request : (s.received g i log ready pc).request = s.request := rfl

theorem received_valid (j : Fin 5) :
    ((s.received g i log ready pc).ipiUpdates j).dataValid = (s.ipiUpdates j).dataValid := by
  unfold received
  by_cases hj : j = i
  · subst hj
    simp
  · simp [hj]

theorem received_ready (j : Fin 5) (k : HartId) :
    ((s.received g i log ready pc).ipiUpdates j).dataReady k =
      if j = i ∧ k = g then ready else (s.ipiUpdates j).dataReady k := by
  unfold received
  by_cases hj : j = i
  · subst hj
    simp [Function.update_apply]
  · simp [hj]

theorem received_applied (j : Fin 5) (k : HartId) :
    (s.received g i log ready pc).applied k j =
      if j = i ∧ k = g then log else s.applied k j := by
  unfold received
  by_cases hk : k = g
  · subst hk
    simp [Function.update_apply]
  · simp [hk]

theorem received_fields {j : Fin 5} {pc' : IpiPc} (hf : Fields (s.ipiUpdates j) pc') :
    Fields ((s.received g i log ready pc).ipiUpdates j) pc' := by
  unfold received
  by_cases hj : j = i
  · subst hj
    simpa using fields_received hf
  · simpa [hj] using hf

/-- The access touches the handshake of the hart with the owner of the mailbox, if there is one. -/
theorem Inv.received (hi : Inv s) (hpc : Checks (s.pc g)) (hpc' : Checks pc)
    (haway : ∀ j, j ≠ i → pc.recv j = none) (hfrom : ∀ j, j ≠ i → (s.pc g).recv j = none)
    (hpair : ∀ h : HartId, i = h.succ → g ≠ h →
      Handshake (s.request h) ((s.pc h).stage g) ((s.ipiUpdates i).dataValid g) ready log
        (pc.recv i))
    (hunused : (∀ h : HartId, i = h.succ → g = h) → pc.recv i = none ∧ log = []) :
    Inv (s.received g i log ready pc) := by
  have hstage : ∀ h k, ((Function.update s.pc g pc) h).stage k = (s.pc h).stage k := by
    intro h k
    by_cases hh : h = g
    · subst hh
      rw [Function.update_self, stage_of_checks hpc', stage_of_checks hpc]
    · rw [Function.update_of_ne hh]
  have hrecv : ∀ k j, ((Function.update s.pc g pc) k).recv j =
      if j = i ∧ k = g then pc.recv i else (s.pc k).recv j := by
    intro k j
    by_cases hk : k = g
    · subst hk
      by_cases hj : j = i
      · subst hj
        simp
      · simp [hj, haway j hj, hfrom j hj]
    · simp [hk]
  refine ⟨fun h r p hs => ?_, fun h => ?_, fun h k hk => ?_, fun k j hj => ?_, fun h hc => ?_⟩
  · rw [received_pc] at hs
    by_cases hh : h = g
    · subst hh
      rw [Function.update_self] at hs
      exact absurd hs (hpc' r p)
    · rw [Function.update_of_ne hh] at hs
      exact hi.request h r p hs
  · rw [received_pc]
    by_cases hh : h = g
    · subst hh
      rw [Function.update_self]
      exact fields_of_checks hpc' _
    · rw [Function.update_of_ne hh]
      exact received_fields (hi.fields h)
  · unfold Pair
    rw [received_pc, received_request, hstage, received_valid, received_ready,
      received_applied, hrecv]
    by_cases hgi : h.succ = i ∧ k = g
    · obtain ⟨rfl, rfl⟩ := hgi
      simpa using hpair h rfl hk
    · simp only [if_neg hgi]
      exact hi.pair h k hk
  · have hu := hi.unused k j hj
    unfold Unused
    rw [received_pc, received_valid, received_applied, hrecv]
    by_cases hgi : j = i ∧ k = g
    · obtain ⟨rfl, rfl⟩ := hgi
      obtain ⟨hr, hl⟩ := hunused hj
      simpa using ⟨hu.1, hr, hl⟩
    · simp only [if_neg hgi]
      exact hu
  · rw [received_pc, hstage] at hc
    rw [received_ready]
    have hne : ¬ (h.succ = i ∧ h = g) := by
      rintro ⟨_, rfl⟩
      rw [stage_of_checks hpc] at hc
      cases hc
    rw [if_neg hne]
    exact hi.cleared h hc

end Received

theorem checks_check (i : Fin 5) (p : RecvPc) : Checks (.check i p) := fun _ _ hpc => nomatch hpc

theorem recv_check_of_ne {j : Fin 5} (hj : j ≠ i) (p : RecvPc) :
    (IpiPc.check i p).recv j = none := by
  cases p <;> first | rfl | exact if_neg hj.symm

theorem recv_check {p : RecvPc} (hp : p ≠ .valid) : (IpiPc.check i p).recv i = some p := by
  cases p <;> first | exact absurd rfl hp | exact if_pos rfl

/-- The pc with which `mon_ipi_check` leaves mailbox `i`. -/
def afterSlot (i : Fin 5) : IpiPc := afterRound i (.check · .valid) .su

theorem checks_afterSlot (i : Fin 5) : Checks (afterSlot i) :=
  afterRound_cases (fun j _ => checks_check j .valid) fun _ _ _ hpc => nomatch hpc

theorem recv_afterSlot (i j : Fin 5) : (afterSlot i).recv j = none :=
  afterRound_cases (P := fun pc : IpiPc => pc.recv j = none) (fun _ _ => rfl) fun _ => rfl

/-- A hart gets past `data_valid` only in the mailbox of another hart. -/
theorem Inv.engaged {p : RecvPc} (hi : Inv s) (hpc : s.pc g = .check i p) (hp : p ≠ .valid) :
    ∃ h : HartId, i = h.succ ∧ g ≠ h := by
  by_contra hno
  push Not at hno
  have hnone := (hi.unused g i hno).2.1
  rw [hpc, recv_check hp] at hnone
  cases hnone

/-- `mon_ipi_check` finds nothing to do in the mailbox. -/
theorem Inv.nextSlot (hi : Inv s) {p : RecvPc} (hpc : s.pc g = .check i p)
    (hpair : ∀ h : HartId, i = h.succ → g ≠ h →
      Handshake (s.request h) ((s.pc h).stage g) ((s.ipiUpdates i).dataValid g)
        ((s.ipiUpdates i).dataReady g) (s.applied g i) none) :
    Inv (s.nextSlot g i) := by
  have heq : s.nextSlot g i = s.received g i _ _ (afterSlot i) := received_goto (afterSlot i)
  rw [heq]
  refine hi.received (hpc ▸ checks_check i p) (checks_afterSlot i)
    (fun j _ => recv_afterSlot i j) (fun j hj => ?_) (fun h hh hne => ?_) fun hown => ?_
  · rw [hpc]
    exact recv_check_of_ne hj p
  · rw [recv_afterSlot]
    exact hpair h hh hne
  · exact ⟨recv_afterSlot i i, (hi.unused g i hown).2.2⟩

/-- An access of a receiver to the mailbox of hart `h`. -/
theorem Inv.access (hi : Inv s) {p : RecvPc} {log : List LocalUpdate} {ready : Bool} {pc : IpiPc}
    (hpc : s.pc g = .check h.succ p) (hne : g ≠ h) (hpc' : Checks pc)
    (haway : ∀ j, j ≠ h.succ → pc.recv j = none)
    (hpair : Handshake (s.request h) ((s.pc h).stage g)
      ((s.ipiUpdates h.succ).dataValid g) ready log (pc.recv h.succ)) :
    Inv (s.received g h.succ log ready pc) := by
  refine hi.received (hpc ▸ checks_check h.succ p) hpc' haway (fun j hj => ?_) (fun k hk _ => ?_)
    fun hown => absurd (hown h rfl) hne
  · rw [hpc]
    exact recv_check_of_ne hj p
  · obtain rfl := Fin.succ_inj.mp hk
    exact hpair

/-- The access only moves the hart on in the mailbox. -/
theorem Inv.move (hi : Inv s) {p p' : RecvPc} (hpc : s.pc g = .check h.succ p) (hne : g ≠ h)
    (hp' : p' ≠ .valid)
    (hpair : Handshake (s.request h) ((s.pc h).stage g) ((s.ipiUpdates h.succ).dataValid g)
      ((s.ipiUpdates h.succ).dataReady g) (s.applied g h.succ) (some p')) :
    Inv (s.goto g (.check h.succ p')) := by
  rw [received_goto]
  exact hi.access hpc hne (checks_check _ _) (fun j hj => recv_check_of_ne hj p')
    (by rw [recv_check hp']; exact hpair)

/-- While a receiver reads the fields, they are those of the request. -/
theorem Inv.fields_posted (hi : Inv s) (hstage : (s.pc h).stage g = .posted) : ∃ r,
    s.request h = some r ∧ (s.ipiUpdates h.succ).perm = r.perm ∧
      (s.ipiUpdates h.succ).regionIdx = r.regionIdx ∧ (s.ipiUpdates h.succ).type = r.type := by
  have hf := hi.fields h
  have hreq := hi.request h
  generalize s.pc h = pc at hf hreq hstage
  cases pc with
  | su => cases hstage
  | check i p => cases hstage
  | send r p =>
    refine ⟨r, hreq r p rfl, ?_⟩
    cases p with
    | post i => exact hf
    | wait i => exact hf
    | resend i => exact hf
    | clearValid i => dsimp only [IpiPc.stage, SendPc.stage] at hstage; split_ifs at hstage
    | clearReady i => dsimp only [IpiPc.stage, SendPc.stage] at hstage; split_ifs at hstage
    | _ => cases hstage

theorem Inv.monIpiCheck (hi : Inv s) {p : RecvPc} (hpc : s.pc g = .check i p) :
    Inv (s.monIpiCheck g i p) := by
  by_cases hp : p = .valid
  · subst hp
    have hnone : (s.pc g).recv i = none := by rw [hpc]; rfl
    dsimp only [Mailboxes.monIpiCheck]
    split_ifs with hv
    · have hnot : ¬ ∀ h : HartId, i = h.succ → g = h := by
        intro hown
        rw [(hi.unused g i hown).1] at hv
        cases hv
      push Not at hnot
      obtain ⟨h, rfl, hne⟩ := hnot
      have hh := hi.pair h g hne
      unfold Pair at hh
      rw [hnone, hv] at hh
      exact hi.move hpc hne nofun (by rw [hv]; exact hh.look)
    · refine hi.nextSlot hpc fun h hh hne => ?_
      subst hh
      have hpair := hi.pair h g hne
      unfold Pair at hpair
      rwa [hnone] at hpair
  obtain ⟨h, rfl, hne⟩ := hi.engaged hpc hp
  have hh := hi.pair h g hne
  unfold Pair at hh
  rw [hpc, recv_check hp] at hh
  -- From `type` on the sender waits for this hart, so the fields are those of its request.
  cases p with
  | valid => exact absurd rfl hp
  | ready =>
    dsimp only [Mailboxes.monIpiCheck]
    split_ifs with hr
    · refine hi.nextSlot hpc fun k hk _ => ?_
      obtain rfl := Fin.succ_inj.mp hk
      rw [hr] at hh ⊢
      exact hh.pass
    · rw [Bool.not_eq_true] at hr
      rw [hr] at hh
      exact hi.move hpc hne nofun (by rw [hr]; exact hh.take)
  | type =>
    obtain ⟨r, hq, _, _, htype⟩ := hi.fields_posted (hh.waits nofun)
    rw [hq] at hh
    dsimp only [Mailboxes.monIpiCheck]
    exact hi.move hpc hne nofun (by rw [hq, htype]; exact hh.readType)
  | region set =>
    obtain ⟨r, hq, _, hregion, _⟩ := hi.fields_posted (hh.waits nofun)
    rw [hq] at hh
    dsimp only [Mailboxes.monIpiCheck]
    refine hi.move hpc hne (by split_ifs <;> nofun) ?_
    rw [hq, hregion]
    exact hh.readRegion
  | perm v =>
    obtain ⟨r, hq, hperm, _, _⟩ := hi.fields_posted (hh.waits nofun)
    rw [hq] at hh
    dsimp only [Mailboxes.monIpiCheck]
    exact hi.move hpc hne nofun (by rw [hq, hperm]; exact hh.readPerm)
  | apply u =>
    have heq : s.monIpiCheck g h.succ (.apply u) = s.received g h.succ (s.applied g h.succ ++ [u])
        ((s.ipiUpdates h.succ).dataReady g) (.check h.succ .ack) := by
      simp [Mailboxes.monIpiCheck, log, goto, Mailboxes.received]
    rw [heq]
    exact hi.access hpc hne (checks_check _ _) (fun j hj => recv_check_of_ne hj _)
      (by rw [recv_check (by nofun)]; exact hh.apply)
  | ack =>
    have heq : s.monIpiCheck g h.succ .ack =
        s.received g h.succ (s.applied g h.succ) true (afterSlot h.succ) := by
      simp [Mailboxes.monIpiCheck, Mailboxes.nextSlot, write, goto, Mailboxes.received, afterSlot]
    rw [heq]
    exact hi.access hpc hne (checks_afterSlot _) (fun j _ => recv_afterSlot _ j)
      (by rw [recv_afterSlot]; exact hh.acknowledge)

/-! ## A step of a sender -/

/-- A loop over the receivers takes each of them from stage `b` to stage `a`. -/
theorem stage_afterRound {next : HartId → SendPc} {last : SendPc} {a b : Stage} (i g : HartId)
    (hnext : ∀ j, (next j).stage g = if g < j then a else b) (hlast : last.stage g = a) :
    SendPc.stage g (afterRound i next last) = if g ≤ i then a else b := by
  refine afterRound_cases (P := fun p : SendPc => p.stage g = if g ≤ i then a else b)
    (fun j hj => ?_) fun hall => ?_
  · rw [hnext j]
    simp only [hj g]
  · rw [hlast, if_pos (hall g)]

/-- An access of `mon_send_sync_ipi` touches the handshakes of its hart with the others. -/
theorem Inv.sent (hi : Inv s) {r : IpiRequest} {p : SendPc} {c : MonIpiCand} {pc : IpiPc}
    (hpc : s.pc h = .send r p) (hreq : ∀ r' p', pc = .send r' p' → r' = r)
    (haway : ∀ j, pc.recv j = none) (hfields : Fields c pc)
    (hpair : ∀ g, g ≠ h → Handshake (some r) (pc.stage g) (c.dataValid g) (c.dataReady g)
      (s.applied g h.succ) ((s.pc g).recv h.succ))
    (hown : c.dataValid h = false) (hcleared : pc.stage h = .cleared → c.dataReady h = false) :
    Inv ((s.write h.succ c).goto h pc) := by
  have hrecv : ∀ g j, ((Function.update s.pc h pc) g).recv j = (s.pc g).recv j := by
    intro g j
    by_cases hg : g = h
    · subst hg
      rw [Function.update_self, haway, hpc]
      rfl
    · rw [Function.update_of_ne hg]
  have hslot : ∀ k : HartId, k ≠ h → Function.update s.ipiUpdates h.succ c k.succ =
      s.ipiUpdates k.succ :=
    fun k hk => Function.update_of_ne (fun he => hk (Fin.succ_inj.mp he)) ..
  unfold goto write
  refine ⟨fun k r' p' hs => ?_, fun k => ?_, fun k g hg => ?_, fun g j hj => ?_, fun k hc => ?_⟩
  · dsimp only at hs ⊢
    by_cases hk : k = h
    · subst hk
      rw [Function.update_self] at hs
      rw [hreq r' p' hs]
      exact hi.request k r p hpc
    · rw [Function.update_of_ne hk] at hs
      exact hi.request k r' p' hs
  · dsimp only
    by_cases hk : k = h
    · subst hk
      rw [Function.update_self, Function.update_self]
      exact hfields
    · rw [Function.update_of_ne hk, hslot k hk]
      exact hi.fields k
  · unfold Pair
    dsimp only
    rw [hrecv]
    by_cases hk : k = h
    · subst hk
      rw [Function.update_self, Function.update_self, hi.request k r p hpc]
      exact hpair g hg
    · rw [Function.update_of_ne hk, hslot k hk]
      exact hi.pair k g hg
  · obtain ⟨hv, hr, hl⟩ := hi.unused g j hj
    unfold Unused
    dsimp only
    rw [hrecv]
    refine ⟨?_, hr, hl⟩
    by_cases hjh : j = h.succ
    · obtain rfl := hj h hjh
      rw [hjh, Function.update_self]
      exact hown
    · rw [Function.update_of_ne hjh]
      exact hv
  · dsimp only at hc ⊢
    by_cases hk : k = h
    · subst hk
      rw [Function.update_self] at hc ⊢
      exact hcleared hc
    · rw [Function.update_of_ne hk] at hc
      rw [hslot k hk]
      exact hi.cleared k hc

/-- The handshakes of a hart that sends `r`. -/
theorem Inv.handshake (hi : Inv s) {r : IpiRequest} {p : SendPc} (hpc : s.pc h = .send r p)
    (hg : g ≠ h) :
    Handshake (some r) (p.stage g) ((s.ipiUpdates h.succ).dataValid g)
      ((s.ipiUpdates h.succ).dataReady g) (s.applied g h.succ) ((s.pc g).recv h.succ) := by
  have hp := hi.pair h g hg
  unfold Pair at hp
  rwa [hi.request h r p hpc, hpc] at hp

theorem Inv.own_valid (hi : Inv s) (h : HartId) : (s.ipiUpdates h.succ).dataValid h = false :=
  (hi.unused h h.succ fun _ hk => Fin.succ_inj.mp hk).1

/-- The call goes on with the next access. -/
theorem Inv.sends (hi : Inv s) {r : IpiRequest} {p p' : SendPc} {c : MonIpiCand}
    (hpc : s.pc h = .send r p) (hfields : Fields c (.send r p'))
    (hpair : ∀ g, g ≠ h → Handshake (some r) (p.stage g) ((s.ipiUpdates h.succ).dataValid g)
        ((s.ipiUpdates h.succ).dataReady g) (s.applied g h.succ) ((s.pc g).recv h.succ) →
      Handshake (some r) (p'.stage g) (c.dataValid g) (c.dataReady g) (s.applied g h.succ)
        ((s.pc g).recv h.succ))
    (hown : c.dataValid h = false) (hcleared : p'.stage h = .cleared → c.dataReady h = false) :
    Inv ((s.write h.succ c).goto h (.send r p')) :=
  hi.sent hpc (fun _ _ he => by cases he; rfl) (fun _ => rfl) hfields
    (fun g hg => hpair g hg (hi.handshake hpc hg)) hown hcleared

/-- It does not change the flags. -/
theorem Inv.sendsOn (hi : Inv s) {r : IpiRequest} {p p' : SendPc} {c : MonIpiCand}
    (hpc : s.pc h = .send r p) (hfields : Fields c (.send r p'))
    (hv : c.dataValid = (s.ipiUpdates h.succ).dataValid)
    (hr : c.dataReady = (s.ipiUpdates h.succ).dataReady)
    (hpair : ∀ g, g ≠ h → ∀ {valid ready log e}, ready = c.dataReady g →
      Handshake (some r) (p.stage g) valid ready log e →
      Handshake (some r) (p'.stage g) valid ready log e)
    (hcleared : p'.stage h ≠ .cleared) :
    Inv ((s.write h.succ c).goto h (.send r p')) := by
  refine hi.sends hpc hfields (fun g hg hh => ?_) (hv ▸ hi.own_valid h) fun hc => absurd hc hcleared
  rw [hv, hr]
  exact hpair g hg (by rw [hr]) hh

theorem goto_eq_write (pc : IpiPc) :
    s.goto h pc = (s.write h.succ (s.ipiUpdates h.succ)).goto h pc := by
  simp [goto, write]

theorem fields_afterRound {c : MonIpiCand} {r : IpiRequest} {i : HartId} {next : HartId → SendPc}
    {last : SendPc} (hnext : ∀ j, Fields c (.send r (next j))) (hlast : Fields c (.send r last)) :
    Fields c (.send r (afterRound i next last)) :=
  afterRound_cases (P := fun p : SendPc => Fields c (.send r p)) (fun j _ => hnext j) fun _ => hlast

/-- Round `i` of the loop that sets `data_valid`. -/
theorem Inv.post (hi : Inv s) {r : IpiRequest} {i : HartId} (hpc : s.pc h = .send r (.post i)) :
    Inv (s.monSendSyncIpi h r (.post i)) := by
  have hf : Fields (s.ipiUpdates h.succ) (.send r (.post i)) := hpc ▸ hi.fields h
  have hstage : ∀ g : HartId, SendPc.stage g (afterRound i .post (.wait 0)) =
      if g ≤ i then .posted else .filling := fun g =>
    stage_afterRound i g (fun _ => rfl) (by simp [SendPc.stage])
  dsimp only [monSendSyncIpi]
  refine hi.sends hpc ?_ (fun g hg hh => ?_) ?_ fun hc => ?_
  · refine fields_afterRound (fun _ => ?_) ?_ <;>
    · split_ifs <;> exact hf
  · rw [hstage]
    dsimp only [SendPc.stage] at hh
    rcases lt_trichotomy g i with hlt | rfl | hgt
    · rw [if_pos hlt] at hh
      rw [if_pos hlt.le]
      split_ifs with hih
      · simpa [Function.update_of_ne hlt.ne] using hh
      · simpa [Function.update_of_ne hlt.ne] using hh
    · rw [if_neg (lt_irrefl g)] at hh
      rw [if_pos le_rfl, if_neg hg]
      simpa using hh.post
    · rw [if_neg hgt.not_gt] at hh
      rw [if_neg hgt.not_ge]
      split_ifs with hih
      · simpa [Function.update_of_ne hgt.ne'] using hh
      · simpa [Function.update_of_ne hgt.ne'] using hh
  · split_ifs with hih
    · exact hi.own_valid h
    · simpa [Function.update_of_ne (Ne.symm hih)] using hi.own_valid h
  · rw [hstage] at hc
    split_ifs at hc

/-- The test of `data_ready[i]` in the condition of the waiting loop. -/
theorem Inv.wait (hi : Inv s) {r : IpiRequest} {i : HartId} (hpc : s.pc h = .send r (.wait i)) :
    Inv (s.monSendSyncIpi h r (.wait i)) := by
  have hf : Fields (s.ipiUpdates h.succ) (.send r (.wait i)) := hpc ▸ hi.fields h
  have hstage : ∀ g : HartId, SendPc.stage g (afterRound i .wait .clearPerm) =
      if g ≤ i then .acked else .posted := fun g => stage_afterRound i g (fun _ => rfl) rfl
  dsimp only [monSendSyncIpi]
  rw [goto_eq_write]
  split_ifs with hready
  · refine hi.sendsOn hpc (fields_afterRound (fun _ => hf)
      (trivial : Fields _ (.send r .clearPerm))) rfl rfl (fun g _ valid ready log e hr hh => ?_)
        (by rw [hstage]; split_ifs <;> nofun)
    rw [hstage]
    dsimp only [SendPc.stage] at hh
    rcases lt_trichotomy g i with hlt | rfl | hgt
    · rw [if_pos hlt] at hh
      rwa [if_pos hlt.le]
    · rw [if_neg (lt_irrefl g), hr, hready] at hh
      rw [if_pos le_rfl, hr, hready]
      exact hh.seen
    · rw [if_neg hgt.not_gt] at hh
      rwa [if_neg hgt.not_ge]
  · refine hi.sendsOn hpc hf rfl rfl (fun g _ valid ready log e _ hh => ?_) nofun
    dsimp only [SendPc.stage] at hh ⊢
    split_ifs at hh with hlt
    · exact hh.again
    · exact hh

/-- The test in its body. -/
theorem Inv.resend (hi : Inv s) {r : IpiRequest} {i : HartId} (hpc : s.pc h = .send r (.resend i)) :
    Inv (s.monSendSyncIpi h r (.resend i)) := by
  have hf : Fields (s.ipiUpdates h.succ) (.send r (.resend i)) := hpc ▸ hi.fields h
  have hstage : ∀ g : HartId, SendPc.stage g (afterRound i .resend (.wait 0)) = .posted := fun g =>
    afterRound_cases (P := fun p : SendPc => p.stage g = .posted) (fun _ _ => rfl)
      fun _ => by simp [SendPc.stage]
  dsimp only [monSendSyncIpi]
  rw [goto_eq_write]
  refine hi.sendsOn hpc (fields_afterRound (fun _ => hf) hf) rfl rfl
    (fun g _ valid ready log e _ hh => ?_) (by rw [hstage]; nofun)
  rw [hstage]
  exact hh

/-- Round `i` of the loop that clears the flags: `data_valid`. -/
theorem Inv.clearValid (hi : Inv s) {r : IpiRequest} {i : HartId}
    (hpc : s.pc h = .send r (.clearValid i)) : Inv (s.monSendSyncIpi h r (.clearValid i)) := by
  have hf : Fields (s.ipiUpdates h.succ) (.send r (.clearValid i)) := hpc ▸ hi.fields h
  dsimp only [monSendSyncIpi]
  refine hi.sends hpc hf (fun g hg hh => ?_) ?_ fun hc => ?_
  · dsimp only [SendPc.stage] at hh ⊢
    rcases lt_trichotomy g i with hlt | rfl | hgt
    · rw [if_pos hlt] at hh ⊢
      rwa [Function.update_of_ne hlt.ne]
    · rw [if_neg (lt_irrefl g)] at hh ⊢
      rw [if_pos rfl, Function.update_self]
      exact hh.clearValid
    · rw [if_neg hgt.not_gt] at hh ⊢
      rwa [if_neg hgt.ne', Function.update_of_ne hgt.ne']
  · dsimp only
    by_cases hih : h = i
    · rw [hih, Function.update_self]
    · rw [Function.update_of_ne hih]
      exact hi.own_valid h
  · refine hi.cleared h ?_
    rw [hpc]
    dsimp only [IpiPc.stage, SendPc.stage] at hc ⊢
    split_ifs at hc ⊢
    rfl

/-- Round `i` of the loop that clears the flags: `data_ready`. -/
theorem Inv.clearReady (hi : Inv s) {r : IpiRequest} {i : HartId}
    (hpc : s.pc h = .send r (.clearReady i)) (hok : s.pc i ≠ .check h.succ .ready) :
    Inv (s.monSendSyncIpi h r (.clearReady i)) := by
  have hf : Fields (s.ipiUpdates h.succ) (.send r (.clearReady i)) := hpc ▸ hi.fields h
  have hstage : ∀ g : HartId, SendPc.stage g (afterRound i .clearValid .done) =
      if g ≤ i then .cleared else .acked := fun g => stage_afterRound i g (fun _ => rfl) rfl
  have hread : (s.pc i).recv h.succ ≠ some .ready := by
    intro hrecv
    unfold IpiPc.recv at hrecv
    split at hrecv
    · cases hrecv
    · split_ifs at hrecv with hj
      cases hrecv
      subst hj
      exact hok ‹_›
    · cases hrecv
  dsimp only [monSendSyncIpi]
  refine hi.sends hpc (fields_afterRound (fun _ => hf) hf) (fun g hg hh => ?_) (hi.own_valid h)
    fun hc => ?_
  · rw [hstage]
    dsimp only [SendPc.stage] at hh ⊢
    rcases lt_trichotomy g i with hlt | rfl | hgt
    · rw [if_pos hlt] at hh
      rwa [if_pos hlt.le, Function.update_of_ne hlt.ne]
    · rw [if_neg (lt_irrefl g), if_pos rfl] at hh
      rw [if_pos le_rfl, Function.update_self]
      exact hh.clearReady hread
    · rw [if_neg hgt.not_gt, if_neg hgt.ne'] at hh
      rwa [if_neg hgt.not_ge, Function.update_of_ne hgt.ne']
  · rw [hstage] at hc
    split_ifs at hc with hle
    dsimp only
    rcases hle.lt_or_eq with hlt | rfl
    · rw [Function.update_of_ne hlt.ne]
      refine hi.cleared h ?_
      rw [hpc]
      exact if_pos hlt
    · exact Function.update_self ..

theorem Inv.monSendSyncIpi (hi : Inv s) {r : IpiRequest} {p : SendPc} (hpc : s.pc h = .send r p)
    (hok : ∀ g, p = .clearReady g → s.pc g ≠ .check h.succ .ready) :
    Inv (s.monSendSyncIpi h r p) := by
  have hf : Fields (s.ipiUpdates h.succ) (.send r p) := hpc ▸ hi.fields h
  cases p with
  | perm => exact hi.sendsOn hpc rfl rfl rfl (fun _ _ _ _ _ _ _ hh => hh) nofun
  | region => exact hi.sendsOn hpc ⟨hf, rfl⟩ rfl rfl (fun _ _ _ _ _ _ _ hh => hh) nofun
  | type =>
    have hstage : ∀ g, SendPc.stage g (.post 0) = .filling := fun g => by simp [SendPc.stage]
    exact hi.sendsOn hpc ⟨hf.1, hf.2, rfl⟩ rfl rfl
      (fun g _ _ _ _ _ _ hh => (hstage g).symm ▸ hh) (by rw [hstage]; nofun)
  | post i => exact hi.post hpc
  | wait i => exact hi.wait hpc
  | resend i => exact hi.resend hpc
  | clearPerm => exact hi.sendsOn hpc rfl rfl rfl (fun _ _ _ _ _ _ _ hh => hh) nofun
  | clearRegion => exact hi.sendsOn hpc ⟨hf, rfl⟩ rfl rfl (fun _ _ _ _ _ _ _ hh => hh) nofun
  | clearType =>
    have hstage : ∀ g, SendPc.stage g (.clearValid 0) = .acked := fun g => by simp [SendPc.stage]
    exact hi.sendsOn hpc ⟨hf.1, hf.2, rfl⟩ rfl rfl
      (fun g _ _ _ _ _ _ hh => (hstage g).symm ▸ hh) (by rw [hstage]; nofun)
  | clearValid i => exact hi.clearValid hpc
  | clearReady i => exact hi.clearReady hpc (hok i rfl)
  | done =>
    dsimp only [Mailboxes.monSendSyncIpi]
    rw [goto_eq_write]
    exact hi.sent hpc nofun (fun _ => rfl) trivial (fun g hg => (hi.handshake hpc hg).back)
      (hi.own_valid h) nofun

/-- A call begins: the mailbox is idle, and what was applied out of it is forgotten. -/
theorem Inv.call (hi : Inv s) (hpc : s.pc h = .su) (r : IpiRequest) :
    Inv ((s.begin h r).goto h (.send r .perm)) := by
  have hrecv : ∀ g j, ((Function.update s.pc h (.send r .perm)) g).recv j = (s.pc g).recv j := by
    intro g j
    by_cases hg : g = h
    · subst hg
      rw [Function.update_self, hpc]
      rfl
    · rw [Function.update_of_ne hg]
  have hlog : ∀ k : HartId, k ≠ h → ∀ g,
      Function.update (s.applied g) h.succ [] k.succ = s.applied g k.succ :=
    fun k hk g => Function.update_of_ne (fun he => hk (Fin.succ_inj.mp he)) ..
  unfold goto begin
  refine ⟨fun k r' p' hs => ?_, fun k => ?_, fun k g hg => ?_, fun g j hj => ?_, fun k hc => ?_⟩ <;>
    dsimp only [Pair, Unused] at *
  · by_cases hk : k = h
    · subst hk
      rw [Function.update_self] at hs ⊢
      cases hs
      rfl
    · rw [Function.update_of_ne hk] at hs ⊢
      exact hi.request k r' p' hs
  · by_cases hk : k = h
    · subst hk
      rw [Function.update_self]
      trivial
    · rw [Function.update_of_ne hk]
      exact hi.fields k
  · rw [hrecv]
    have hp := hi.pair k g hg
    by_cases hk : k = h
    · subst hk
      unfold Pair at hp
      rw [hpc] at hp
      rw [Function.update_self, Function.update_self, Function.update_self]
      exact Handshake.call hp r
    · rw [Function.update_of_ne hk, Function.update_of_ne hk, hlog k hk]
      exact hp
  · obtain ⟨hv, hr, hl⟩ := hi.unused g j hj
    rw [hrecv]
    refine ⟨hv, hr, ?_⟩
    by_cases hjh : j = h.succ
    · rw [hjh, Function.update_self]
    · rw [Function.update_of_ne hjh]
      exact hl
  · by_cases hk : k = h
    · subst hk
      rw [Function.update_self] at hc
      cases hc
    · rw [Function.update_of_ne hk] at hc
      exact hi.cleared k hc

/-- A software interrupt: the hart begins with mailbox 0. -/
theorem Inv.interrupt (hi : Inv s) (hpc : s.pc g = .su) : Inv (s.goto g (.check 0 .valid)) := by
  have hnone : ∀ j, (s.pc g).recv j = none := fun j => by rw [hpc]; rfl
  have hsu : Checks (s.pc g) := by rw [hpc]; nofun
  rw [received_goto (i := 0)]
  exact hi.received hsu (checks_check 0 .valid) (fun _ _ => rfl) (fun j _ => hnone j)
    (fun h hh _ => absurd hh.symm (Fin.succ_ne_zero h)) fun hown => ⟨rfl, (hi.unused g 0 hown).2.2⟩

theorem inv_step (s : Mailboxes) (m : IpiMove) (hi : Inv s) (hok : s.clearsUnderRead m = false) :
    Inv (s.step m) := by
  cases m with
  | interrupt g =>
    dsimp only [step]
    split_ifs with hpc
    · exact hi.interrupt hpc
    · exact hi
  | call h r =>
    dsimp only [step]
    split_ifs with hpc
    · exact hi.call hpc r
    · exact hi
  | next h =>
    dsimp only [step, advance]
    cases hpc : s.pc h with
    | su => exact hi
    | check i p => exact hi.monIpiCheck hpc
    | send r p =>
      refine hi.monSendSyncIpi hpc fun g hp => ?_
      subst hp
      simpa [clearsUnderRead, hpc] using hok

/-- In a run in which no sender takes back an acknowledgement that its receiver is about to read,
every update reaches every other hart once. -/
theorem updates_delivered_once (ms : List IpiMove)
    (hok : StepsOk step (fun s m => s.clearsUnderRead m = false) boot ms) :
    Always step Delivered boot ms :=
  always_of_inv inv_step (fun _ => Inv.delivered) ms inv_boot hok

/-- A call of hart 0 up to the waiting loop, an interrupt of hart `g` in which it applies the
update, and the rest of the call. -/
def sending (r : IpiRequest) : List IpiMove := .call 0 r :: List.replicate 7 (.next 0)

def applying (g : HartId) : List IpiMove := .interrupt g :: List.replicate 11 (.next g)

def returning : List IpiMove := List.replicate 15 (.next 0)

theorem set_delivered_once :
    Always step Delivered boot
        (sending ⟨2, 0, 7⟩ ++ applying 1 ++ applying 2 ++ applying 3 ++ returning) ∧
      (run step boot (sending ⟨2, 0, 7⟩ ++ applying 1 ++ applying 2 ++ applying 3 ++
        returning)).pc 0 = .send ⟨2, 0, 7⟩ .done :=
  ⟨updates_delivered_once _ (by decide +kernel), by decide +kernel⟩

/-- All harts have acknowledged, and hart 1 takes another interrupt. Between its reads of the two
flags the call of hart 0 clears them. -/
def clearedUnderRead : List IpiMove :=
  sending ⟨2, 0, 7⟩ ++ applying 1 ++ applying 2 ++ applying 3 ++
    [.interrupt 1, .next 1, .next 1] ++ List.replicate 11 (.next 0) ++ List.replicate 5 (.next 1)

/-- Hart 1 goes on to acknowledge the update that nobody sent, and hart 0 makes another call. -/
def nextCall : List IpiMove :=
  List.replicate 4 (.next 1) ++ List.replicate 5 (.next 0) ++ sending ⟨3, 1, 0⟩ ++ applying 2 ++
    applying 3 ++ returning

/-- Hart 1 applies an update nobody asked for, and does not apply that of the next call. -/
theorem phantom_update_applied :
    ¬ Delivered (run step boot clearedUnderRead) ∧
      (run step boot (clearedUnderRead ++ nextCall)).pc 0 = .send ⟨3, 1, 0⟩ .done ∧
      (run step boot (clearedUnderRead ++ nextCall)).applied 1 1 = [] := by
  refine ⟨fun hd => ?_, by decide +kernel, by decide +kernel⟩
  have hlog : (run step boot clearedUnderRead).applied 1 1 =
      [.setKeystone 2 7, .setKeystone 0 0] := by
    decide +kernel
  have honce := hd.once 1 1
  rw [hlog] at honce
  exact absurd honce (by decide)

end Mailboxes

end Dorami.Sm
