import CoherenceSim.Lib.Stdio
import CoherenceSim.Model.Main
import CoherenceSim.Model.System
import CoherenceSim.Proof.Agreement
import CoherenceSim.Proof.Answers
import CoherenceSim.Proof.AnswersFirst
import CoherenceSim.Proof.AnyOrder
import CoherenceSim.Proof.Bursts
import CoherenceSim.Proof.BusExclusion
import CoherenceSim.Proof.BusyCycles
import CoherenceSim.Proof.CleanFirst
import CoherenceSim.Proof.Coherence
import CoherenceSim.Proof.Completion
import CoherenceSim.Proof.DirtySnoops
import CoherenceSim.Proof.Evictions
import CoherenceSim.Proof.Geometry
import CoherenceSim.Proof.InstructionOrder
import CoherenceSim.Proof.Interference
import CoherenceSim.Proof.Invalidations
import CoherenceSim.Proof.LineOwners
import CoherenceSim.Proof.LoneTraces
import CoherenceSim.Proof.MemoryBursts
import CoherenceSim.Proof.MemoryOrder
import CoherenceSim.Proof.MemoryTraffic
import CoherenceSim.Proof.MissCost
import CoherenceSim.Proof.PrivateLines
import CoherenceSim.Proof.PrivateTraffic
import CoherenceSim.Proof.Ranks
import CoherenceSim.Proof.ReadCounts
import CoherenceSim.Proof.ReadTraffic
import CoherenceSim.Proof.Recency
import CoherenceSim.Proof.StaleAnswers
import CoherenceSim.Proof.StoreOwnership
import CoherenceSim.Proof.Table
import CoherenceSim.Proof.TraceLog
import CoherenceSim.Proof.Traces
import CoherenceSim.Proof.Transfers
import CoherenceSim.Proof.Upgrades
import CoherenceSim.Proof.WaitCycles
import CoherenceSim.Proof.WholeTraces
