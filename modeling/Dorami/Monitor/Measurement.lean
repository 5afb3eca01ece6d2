import Dorami.Monitor.Trap
import Dorami.Sm.Regions

/-!
# What is measured

`validate_and_hash_epm` hashes three sizes and three segments, page by page. The results about the
measurement speak of the segments, of the pages its loops pass and of the addresses they read.
-/

namespace Dorami.Sm

open Riscv

/-- A segment of `size` bytes rounded up to whole pages. -/
def pageRoundUp (size : Word) : Nat := (size.toNat + 4095) / 4096 * 4096

namespace RuntimeParams

variable (p : RuntimeParams)

/-! The sizes of the three segments. -/

def loaderSize : Word := p.runtimeBase - p.dramBase

def runtimeSize : Word := p.userBase - p.runtimeBase

def eappSize : Word := p.freeBase - p.userBase

end RuntimeParams

/-- The `n` bytes from `base` in one memory are those from `base'` in the other. -/
def SameBytes (m m' : Monitor) (base base' : Word) (n : Nat) : Prop :=
  ∀ i < n, m.mem (base + BitVec.ofNat 64 i) = m'.mem (base' + BitVec.ofNat 64 i)

/-- The three segments of `p` in one memory have the bytes of those of `p'` in the other. -/
structure SameContents (p p' : RuntimeParams) (m m' : Monitor) : Prop where
  loader : SameBytes m m' p.dramBase p'.dramBase (pageRoundUp p.loaderSize)
  runtime : SameBytes m m' p.runtimeBase p'.runtimeBase (pageRoundUp p.runtimeSize)
  eapp : SameBytes m m' p.userBase p'.userBase (pageRoundUp p.eappSize)

/-- The arguments pass `is_create_args_valid`, and `pmp_region_init` grants the EPM in some table
that creating and destroying enclaves leads to. -/
def CreateArgs.Accepted (args : CreateArgs) : Prop :=
  isCreateArgsValid args = true ∧ ∃ cs t rid,
    (tableAfter cs).pmpRegionInit args.epmPaddr args.epmSize .any false = (t, .ok rid)

/-- The segments of the parameters follow each other below the last page of the address space. -/
structure RuntimeParams.Ordered (p : RuntimeParams) : Prop where
  runtime : p.dramBase.toNat ≤ p.runtimeBase.toNat
  user : p.runtimeBase.toNat ≤ p.userBase.toNat
  free : p.userBase.toNat ≤ p.freeBase.toNat
  room : p.freeBase.toNat + 4096 ≤ 2 ^ 64

/-! ## Page loops -/

/-- `for (page = base; page < stop; page += RISCV_PGSIZE)` passes these pages and ends with the
counter at `last`. A loop that does not end has no such run. -/
inductive PageLoop (stop : Word) : (page : Word) → (pages : List Word) → (last : Word) → Prop
  | done {page : Word} (h : ¬ page < stop) : PageLoop stop page [] page
  | next {page last : Word} {pages : List Word} (h : page < stop)
      (rest : PageLoop stop (page + RISCV_PGSIZE) pages last) :
      PageLoop stop page (page :: pages) last

/-- The loop from `base` to `stop` ends after as many rounds as there are pages, and its counter is
that of unbounded numbers. -/
structure LoopEnds (base stop : Word) (pages : List Word) (last : Word) : Prop where
  run : PageLoop stop base pages last
  rounds : pages.length = ((stop - base).toNat + 4095) / 4096
  counter : ∀ i page, pages[i]? = some page → page.toNat = base.toNat + 4096 * i
  final : last.toNat = base.toNat + 4096 * pages.length

/-! ## What is read -/

/-- The addresses that `validate_and_hash_epm` reads, in its order. -/
def measuredAddrs (p : RuntimeParams) : List Word :=
  (pageLoop (2 ^ 52) p.dramBase p.runtimeBase ++ pageLoop (2 ^ 52) p.runtimeBase p.userBase ++
    pageLoop (2 ^ 52) p.userBase p.freeBase).flatMap fun page =>
      (List.range RISCV_PGSIZE.toNat).map fun i => page + BitVec.ofNat 64 i

namespace RuntimeParams

variable (p : RuntimeParams)

/-- The addresses of the EPM. -/
def epm : Set Nat := byteRange p.dramBase p.dramSize

/-- The segment from `base` to `stop` is empty, or begins at a page, or ends before the EPM by at
least what is missing from its first page. -/
def Fits (base stop : Word) : Prop :=
  base = stop ∨ base.toNat % 4096 = 0 ∨
    stop.toNat + (4096 - base.toNat % 4096) ≤ p.dramBase.toNat + p.dramSize.toNat

/-- The runtime and the application fit; the loader begins where the EPM does. -/
def SegmentsFit : Prop := p.Fits p.runtimeBase p.userBase ∧ p.Fits p.userBase p.freeBase

/-- The measurement does not depend on what lies outside the EPM. -/
def MeasuresEpmOnly : Prop :=
  ∀ (C : Crypto) (en : Enclave) (m m' : Monitor), en.params = p →
    (∀ a : Word, a.toNat ∈ p.epm → m.mem a = m'.mem a) →
    validateAndHashEnclave C m en = validateAndHashEnclave C m' en

end RuntimeParams

end Dorami.Sm
