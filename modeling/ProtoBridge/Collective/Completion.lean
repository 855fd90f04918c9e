import ProtoBridge.Collective.NvlsAllGather
import ProtoBridge.Collective.Offload

/-!
# Completion of the in-network collectives

`SharpAllReduce` completes once, when all GPUs have their bytes, with the transaction
model and without. `NvlsAllGather` has no mark for the GPUs that are done and does so
in the runs where nothing arrives at a GPU behind its last byte.
-/

namespace ProtoBridge.Collective

open Lib Fabric Transaction

/-- An in-network collective completes when all GPUs are served. -/
theorem inNetwork_completes {n : UInt16} {d : UInt64} (hn : 0 < n) (hd : 0 < d) (m : ProtocolModel)
    (startup : Int) :
    ((nvlsMachine n d).restrict NvlsAllGather.InTime).Invariant
        (fun c => CompletesWhenServed n.toNat d.toNat c.log) ∧
      (sharpMachine n d).Invariant (fun c => CompletesWhenServed n.toNat d.toNat c.log) ∧
      (offloadMachine m n d startup).Invariant
        (fun c => CompletesWhenServed n.toNat d.toNat c.log) := by
  refine ⟨?_, ?_, ?_⟩
  · intro c hreach
    exact (NvlsAllGather.kept_invariant n d hd c hreach).books.completes
  · intro c hreach
    exact (SharpAllReduce.kept_invariant n d hn hd c hreach).books.completes
  · intro c hreach
    exact (OffloadedAllReduce.kept_invariant m n d startup hn hd c hreach).completes

/-- A packet of the result of an AllGather. -/
def gathered (gpu : UInt16) (bytes : UInt32) : Header where
  packetType := .allGather
  destRank := gpu
  effectiveDataSize := bytes

/-- Both GPUs get two bytes. -/
def servedRun : List NvlsAllGather.Act :=
  [.triggerSendPhase, .receive (gathered 0 2), .receive (gathered 1 0), .receive (gathered 1 2)]

/-- GPU 0 gets its two bytes and a packet without bytes; GPU 1 gets nothing. -/
def unservedRun : List NvlsAllGather.Act :=
  [.triggerSendPhase, .receive (gathered 0 2), .receive (gathered 0 0)]

theorem inNetwork_completes_servedRun : ∃ c : NvlsAllGather, .completed ∈ c.log ∧
    CompletesWhenServed 2 2 c.log := by
  have hrun : (((nvlsMachine 2 2).restrict NvlsAllGather.InTime).runs
      { numGpus := 2, dataSize := 2, chunkSize := 1, remainder := 0, state := .sendPhase }
      servedRun).map (fun c => decide (.completed ∈ c.log)) = some true := by decide
  have hinit : ((nvlsMachine 2 2).restrict NvlsAllGather.InTime).init
      { numGpus := 2, dataSize := 2, chunkSize := 1, remainder := 0, state := .sendPhase } :=
    ⟨{ numGpus := 2, dataSize := 2, chunkSize := 1, remainder := 0 }, rfl, rfl⟩
  obtain ⟨c, hreach, hlog⟩ := Machine.Reachable.exists_of_runs hinit hrun
  exact ⟨c, of_decide_eq_true hlog, (inNetwork_completes (by decide) (by decide)
    ⟨fun _ => 0, fun bytes _ => bytes, fun _ => 0⟩ 0).1 c hreach⟩

/-- `NvlsAllGather` completes while a GPU has nothing of the result. -/
theorem unserved_unservedRun :
    ¬ ∀ (n : UInt16) (d : UInt64), 0 < n → 0 < d →
      (nvlsMachine n d).Invariant fun c => CompletesWhenServed n.toNat d.toNat c.log := by
  intro hall
  have hrun : ((nvlsMachine 2 2).runs
      { numGpus := 2, dataSize := 2, chunkSize := 1, remainder := 0, state := .sendPhase }
      unservedRun).map (fun c => c.log) =
        some [.uploaded 0 1, .uploaded 1 1, .arrived 0 2, .arrived 0 0, .completed] := by decide
  have hinit : (nvlsMachine 2 2).init
      { numGpus := 2, dataSize := 2, chunkSize := 1, remainder := 0, state := .sendPhase } :=
    ⟨{ numGpus := 2, dataSize := 2, chunkSize := 1, remainder := 0 }, rfl, rfl⟩
  obtain ⟨c, hreach, hlog⟩ := Machine.Reachable.exists_of_runs hinit hrun
  have hserved := (hall 2 2 (by decide) (by decide) c hreach).served
  rw [hlog] at hserved
  have hgpu := hserved [.uploaded 0 1, .uploaded 1 1, .arrived 0 2, .arrived 0 0] .completed [] rfl rfl
    1 (by decide)
  exact absurd hgpu (by decide)

end ProtoBridge.Collective
