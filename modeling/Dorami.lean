import Dorami.Lib.Run
import Dorami.Lib.Stores
import Dorami.Lib.Hkdf
import Dorami.Lib.Copy
import Dorami.Riscv.Pmp
import Dorami.Riscv.Proofs.PmpProofs
import Dorami.Sm.Status
import Dorami.Sm.Pmp
import Dorami.Sm.Sha3
import Dorami.Sm.Hkdf
import Dorami.Sm.Sm
import Dorami.Sm.Proofs.PmpTableProofs
import Dorami.Sm.Proofs.SeparationProofs
import Dorami.Sm.Proofs.AcceptProofs
import Dorami.Sm.Proofs.RegisterProofs
import Dorami.Sm.Proofs.PmpSetProofs
import Dorami.Sm.State
import Dorami.Sm.Switch
import Dorami.Sm.Enclave
import Dorami.Sm.Sbi
import Dorami.Monitor.Trap
import Dorami.Monitor.Proofs.ViewProofs
import Dorami.Monitor.Core
import Dorami.Monitor.Proofs.CoreProofs
import Dorami.Monitor.Proofs.RefineProofs
import Dorami.Monitor.Proofs.AgreeProofs
import Dorami.Monitor.Proofs.SlotProofs
import Dorami.Monitor.Proofs.CallProofs
import Dorami.Monitor.Proofs.LifecycleProofs
import Dorami.Monitor.Proofs.IsolationProofs
import Dorami.Monitor.Proofs.ForwardProofs
import Dorami.Concurrent.Exclusive
import Dorami.Concurrent.Proofs.ExclusiveProofs
import Dorami.Concurrent.Context
import Dorami.Concurrent.Proofs.ContextProofs
import Dorami.Concurrent.Ownership
import Dorami.Concurrent.Proofs.OwnershipProofs
import Dorami.Monitor.Proofs.TableProofs
import Dorami.Monitor.Proofs.MachineMemoryProofs
import Dorami.Monitor.Proofs.TrapProofs
import Dorami.Monitor.Osbi
import Dorami.Monitor.Proofs.OsbiProofs
import Dorami.Monitor.Contexts
import Dorami.Monitor.Proofs.FootprintProofs
import Dorami.Monitor.Proofs.ConfinementProofs
import Dorami.Monitor.Proofs.OverlapProofs
import Dorami.Monitor.Proofs.SendProofs
import Dorami.Monitor.Proofs.ContinuityProofs
import Dorami.Concurrent.Mailbox
import Dorami.Concurrent.Proofs.MailboxProofs
import Dorami.Concurrent.Barrier
import Dorami.Concurrent.Proofs.BarrierProofs
import Dorami.Riscv.Asm
import Dorami.Riscv.Proofs.AsmProofs
import Dorami.Monitor.Assembly
import Dorami.Monitor.Proofs.AssemblyProofs
import Dorami.Monitor.Proofs.ReturnProofs
import Dorami.Monitor.Proofs.EntryProofs
import Dorami.Monitor.Proofs.MeasurementProofs
import Dorami.Monitor.Calls
import Dorami.Monitor.Proofs.CreateProofs
import Dorami.Monitor.Proofs.RequestProofs
import Dorami.Monitor.Proofs.StackProofs
import Dorami.Monitor.Proofs.HostCallProofs
import Dorami.Monitor.Proofs.SteadyProofs
import Dorami.Monitor.Proofs.FirmwareProofs
import Dorami.Sm.Service
import Dorami.Sm.Sealing
import Dorami.Sm.Mprv
import Dorami.Monitor.Proofs.ServiceProofs
import Dorami.Monitor.Proofs.StoreProofs
import Dorami.Monitor.Proofs.DataProofs
import Dorami.Monitor.Frames
import Dorami.Monitor.Proofs.FrameProofs
import Dorami.Monitor.Proofs.SegmentProofs
import Dorami.Sm.Proofs.HkdfProofs
import Dorami.Monitor.Proofs.SealingProofs
import Dorami.Monitor.Report
import Dorami.Monitor.Proofs.ProvisionProofs
import Dorami.Monitor.Proofs.ReportProofs
import Dorami.Sm.Proofs.MprvProofs
import Dorami.Monitor.Proofs.ReleaseProofs
import Dorami.Lib.TwoRuns
import Dorami.Monitor.Secrets
import Dorami.Monitor.Proofs.TwinProofs
import Dorami.Monitor.Proofs.SecretsProofs
import Dorami.Lib.Fifo
import Dorami.Lib.Rounds
import Dorami.Lib.Sponge
import Dorami.Lib.Keccak
import Dorami.Sm.Proofs.Sha3Proofs
import Dorami.Sbi.Locks
import Dorami.Sbi.Proofs.LocksProofs
import Dorami.Monitor.Boot
import Dorami.Monitor.Proofs.BootRunProofs
import Dorami.Lib.Limbs
import Dorami.Lib.LittleEndian
import Dorami.Sm.Ed25519.Sc
import Dorami.Sm.Ed25519.Proofs.ScProofs
