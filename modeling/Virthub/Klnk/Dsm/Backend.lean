import Virthub.Klnk.Core.Units
import Virthub.Klnk.Rma.TransportEngine
import Virthub.Lib.Trace

/-! The DSM backend over the control plane and the transport engine. Blocks have opaque metadata, which the
control plane keeps in the page entry at the block's address. The memory of the process is part of the
state. -/
namespace Virthub.Klnk.Dsm
open Virthub.Lib Virthub.Klnk.Rma

abbrev RegionId := UInt64

abbrev BlockMetadata := List UInt8

inductive DsmError where
  | regionNotFound (regionId : RegionId)
  | fetchFailed (regionId : RegionId) (reason : String)
  | internal (message : String)
  deriving DecidableEq, Repr

structure BlockData where
  payload : List UInt8
  metadata : BlockMetadata
  deriving DecidableEq, Repr

/-- The process in the high half and the segment in the low half. -/
def regionIdToGlobal (regionId : RegionId) : GlobalRegionId :=
  ⟨(regionId >>> 32).toUInt32, (regionId &&& 0xFFFFFFFF).toUInt32.toInt32⟩

structure RemoteBlockInfo where
  peerAddr : SocketAddr
  remoteVaddr : UInt64
  rkey : UInt32
  size : UInt64
  metadata : BlockMetadata
  deriving DecidableEq, Repr

/-- `copy_nonoverlapping` from `src` to `dst`. -/
def copyMemory (memory : UInt64 → UInt8) (src dst size : UInt64) : UInt64 → UInt8 :=
  fun a => if a - dst < size then memory (src + (a - dst)) else memory a

def readMemory (memory : UInt64 → UInt8) (vaddr size : UInt64) : List UInt8 :=
  (List.range size.toNat).map fun i => memory (vaddr + i.toUInt64)

theorem readMemory_copyMemory (memory : UInt64 → UInt8) (src dst size : UInt64) :
    readMemory (copyMemory memory src dst size) dst size = readMemory memory src size := by
  unfold readMemory
  apply List.map_congr_left
  intro i hi
  have hoffset : dst + i.toUInt64 - dst = i.toUInt64 := by
    rw [UInt64.add_comm, UInt64.add_sub_cancel]
  have hlt : i.toUInt64 < size := by
    have hi := List.mem_range.mp hi
    have hsize := size.toNat_lt
    rw [UInt64.lt_iff_toNat_lt, Nat.toUInt64_eq, UInt64.toNat_ofNat']
    omega
  rw [copyMemory, hoffset, if_pos hlt]

structure KlnkDsmBackend where
  controlPlane : ControlPlaneManager
  rmaEngine : RmaTransportEngine
  localBlocks : AList fun _ : RegionId => UInt64 × UInt64
  remoteBlocks : AList fun _ : RegionId => RemoteBlockInfo
  memory : UInt64 → UInt8

/-- The region of a block: one unit for the whole block, readable and writable. -/
def blockDescriptor (regionId : RegionId) (vaddr size : UInt64) : MemoryRegionDescriptor where
  regionId := regionIdToGlobal regionId
  mainVaddr := vaddr
  regionSize := size
  stagingVaddr := 0
  stagingNumPages := 1
  stagingPageSize := max size 4096
  protFlags := ⟨1 ||| 2⟩
  memFlags := 0
  version := 0

namespace KlnkDsmBackend

def new (controlPlane : ControlPlaneManager) (rmaEngine : RmaTransportEngine) (memory : UInt64 → UInt8) :
    KlnkDsmBackend :=
  ⟨controlPlane, rmaEngine, ∅, ∅, memory⟩

def registerRemoteBlockInfo (self : KlnkDsmBackend) (regionId : RegionId) (info : RemoteBlockInfo) :
    KlnkDsmBackend :=
  { self with remoteBlocks := self.remoteBlocks.insert regionId info }

/-- The answer is `none` if the call never returns. -/
def registerBlock (self : KlnkDsmBackend) (regionId : RegionId) (vaddr size : UInt64)
    (metadata : BlockMetadata) : Option (Except DsmError Unit × KlnkDsmBackend) :=
  match self.controlPlane.registerRegionWithMetadata (blockDescriptor regionId vaddr size) metadata with
  | none => none
  | some (.error e, controlPlane) => some (.error (.internal e.display), { self with controlPlane })
  | some (.ok (), controlPlane) =>
    some (.ok (), { self with
      controlPlane, localBlocks := self.localBlocks.insert regionId (vaddr, size) })

/-- The metadata that the control plane has for an address, empty if it has no entry there. -/
def metadataAt (self : KlnkDsmBackend) (vaddr : UInt64) : BlockMetadata :=
  (self.controlPlane.getPageMetadata vaddr).getD []

def sizeMismatch (expected got : UInt64) : String :=
  "size mismatch: expected " ++ toString expected ++ ", got " ++ toString got

def fetchBlock (self : KlnkDsmBackend) (regionId : RegionId) (_peerAddr : SocketAddr)
    (localVaddr size : UInt64) : Except DsmError BlockData × KlnkDsmBackend :=
  match self.localBlocks.lookup regionId with
  | some (srcVaddr, srcSize) =>
    if srcSize ≠ size then (.error (.internal (sizeMismatch size srcSize)), self)
    else
      let memory := copyMemory self.memory srcVaddr localVaddr size
      (.ok ⟨readMemory memory localVaddr size, self.metadataAt srcVaddr⟩, { self with memory })
  | none =>
    match self.remoteBlocks.lookup regionId with
    | none => (.error (.fetchFailed regionId "remote block info not registered"), self)
    | some info =>
      if info.size ≠ size then (.error (.fetchFailed regionId (sizeMismatch size info.size)), self)
      else
        -- the peer of the registration is read, not the one of the call
        match self.rmaEngine.rdmaRead info.peerAddr info.remoteVaddr info.rkey localVaddr size with
        | (.error e, rmaEngine) => (.error (.fetchFailed regionId e.display), { self with rmaEngine })
        | (.ok (), rmaEngine) =>
          (.ok ⟨readMemory self.memory localVaddr size, info.metadata⟩, { self with rmaEngine })

/-- Whether the control plane had an entry is not looked at. -/
def updateMetadata (self : KlnkDsmBackend) (regionId : RegionId) (newMetadata : BlockMetadata) :
    Except DsmError Unit × KlnkDsmBackend :=
  match self.localBlocks.lookup regionId with
  | none => (.error (.regionNotFound regionId), self)
  | some (vaddr, _) =>
    (.ok (), { self with controlPlane := (self.controlPlane.setPageMetadata vaddr newMetadata).2 })

end KlnkDsmBackend

inductive DsmCall where
  | registerBlock (regionId : RegionId) (vaddr size : UInt64) (metadata : BlockMetadata)
  | fetchBlock (regionId : RegionId) (peerAddr : SocketAddr) (localVaddr size : UInt64)
  | updateMetadata (regionId : RegionId) (newMetadata : BlockMetadata)
  | registerRemoteBlockInfo (regionId : RegionId) (info : RemoteBlockInfo)
  deriving DecidableEq

inductive DsmAnswer where
  | done (r : Except DsmError Unit)
  | block (r : Except DsmError BlockData)

namespace KlnkDsmBackend

/-- One call of the backend; the answer is `none` if it never returns. -/
def dsmStep (self : KlnkDsmBackend) : DsmCall → Option DsmAnswer × KlnkDsmBackend
  | .registerBlock r v size m =>
    match self.registerBlock r v size m with
    | none => (none, self)
    | some (answer, self') => (some (.done answer), self')
  | .fetchBlock r peer v size => Prod.map (some ∘ .block) id (self.fetchBlock r peer v size)
  | .updateMetadata r m => Prod.map (some ∘ .done) id (self.updateMetadata r m)
  | .registerRemoteBlockInfo r info => (some (.done (.ok ())), self.registerRemoteBlockInfo r info)

/-- A fetch of a local block returns the bytes at its address and the metadata of that address. -/
theorem fetchBlock_local {self : KlnkDsmBackend} {r : RegionId} {v srcSize : UInt64}
    (hlocal : self.localBlocks.lookup r = some (v, srcSize)) (peer : SocketAddr) (dst size : UInt64) :
    (self.fetchBlock r peer dst size).1 =
      if srcSize = size then .ok ⟨readMemory self.memory v size, self.metadataAt v⟩
      else .error (.internal (sizeMismatch size srcSize)) := by
  unfold fetchBlock
  rw [hlocal]
  dsimp only
  by_cases hsize : srcSize = size
  · rw [if_neg (not_not.mpr hsize), if_pos hsize, readMemory_copyMemory]
  · rw [if_pos hsize, if_neg hsize]

end KlnkDsmBackend

end Virthub.Klnk.Dsm
