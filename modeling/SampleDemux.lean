import SampleDemux.Main
import SampleDemux.Lane.Workspace
import SampleDemux.Source.Calls
import SampleDemux.Sink.Memory
import SampleDemux.Sink.Trace
import SampleDemux.Proofs.ChunkEncoder
import SampleDemux.Proofs.Demultiplexer
import SampleDemux.Proofs.Acceptance
import SampleDemux.Proofs.EmissionOrder
import SampleDemux.Proofs.DispatchOrder
import SampleDemux.Proofs.SharedCallOrder
import SampleDemux.Proofs.IntegerCodes
import SampleDemux.Proofs.ScheduleIndependence
import SampleDemux.Proofs.LifeCycle
import SampleDemux.Proofs.Truncation
import SampleDemux.Proofs.ModeAgreement
import SampleDemux.Proofs.Routing
import SampleDemux.Proofs.ChunkExecution
import SampleDemux.Proofs.CycleOutcome
import SampleDemux.Proofs.LaneHistory
import SampleDemux.Proofs.LaneEnd
import SampleDemux.Proofs.SourceRequests
import SampleDemux.Proofs.Opening
import SampleDemux.Proofs.RegistryHistory
import SampleDemux.Proofs.ComponentCounts
import SampleDemux.Proofs.WaveFile
import SampleDemux.Proofs.FileNames
import SampleDemux.Proofs.FileContents
import SampleDemux.Proofs.SampleEncoding
import SampleDemux.Proofs.SampleFiles
import SampleDemux.BitReader.Calls
import SampleDemux.Proofs.BitCalls
import SampleDemux.Proofs.ExactMoments
import SampleDemux.Plan.Bounded
import SampleDemux.Proofs.PlanRange
import SampleDemux.Proofs.OutputDirectory
