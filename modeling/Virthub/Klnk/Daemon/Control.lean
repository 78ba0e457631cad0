import Virthub.Klnk.Core.ControlPlane
import Virthub.Lib.Trace

/-! The daemon's control socket: one control message from one client connection is processed at
a time and answered on that connection. -/
namespace Virthub.Klnk.Daemon
open Virthub.Lib

inductive ControlMessagePayload where
  | regionRegister (pid : UInt32) (vaddr size : UInt64) (flags : UInt32)
  | regionDeregister (pid : UInt32) (vaddr : UInt64)
  | lockAcquire (regionId offset len : UInt64)
  | lockRelease (regionId offset len : UInt64)
  | heartbeat (nodeId : UInt32) (timestamp : UInt64)
  | responseAck (success : Bool) (message : String)
  deriving DecidableEq, Repr

/-- The response to a control-plane call. -/
def ack : Except ControlPlaneError Unit → ControlMessagePayload
  | .ok () => .responseAck true "OK"
  | .error e => .responseAck false e.display

def regionIdOf (pid : UInt32) (vaddr : UInt64) : GlobalRegionId := ⟨pid, vaddr.toUInt32.toInt32⟩

def regionDescriptor (pid : UInt32) (vaddr size : UInt64) (flags : UInt32) :
    MemoryRegionDescriptor where
  regionId := regionIdOf pid vaddr
  mainVaddr := vaddr
  regionSize := size
  stagingVaddr := 0
  stagingNumPages := 0
  stagingPageSize := 4096
  protFlags := ⟨flags⟩
  memFlags := 0
  version := 0

/-- The response to a message and the control plane after it; `none` if the call never returns. -/
def processControlPayload (payload : ControlMessagePayload) (controlPlane : ControlPlaneManager) :
    Option (ControlMessagePayload × ControlPlaneManager) :=
  match payload with
  | .regionRegister pid vaddr size flags =>
    (controlPlane.registerRegion (regionDescriptor pid vaddr size flags)).map (Prod.map ack id)
  | .regionDeregister pid vaddr =>
    (controlPlane.deregisterRegion (regionIdOf pid vaddr)).map (Prod.map ack id)
  -- the low half of the offset stands for the client
  | .lockAcquire regionId offset _ =>
    some (Prod.map ack id (controlPlane.acquireLock regionId offset.toUInt32))
  | .lockRelease regionId offset _ =>
    some (Prod.map ack id (controlPlane.releaseLock regionId offset.toUInt32))
  | .heartbeat _ _ => some (.responseAck true "Heartbeat", controlPlane)
  | .responseAck _ _ => some (.responseAck false "Unsupported", controlPlane)

/-- A message as it arrives on one of the client connections. -/
structure ClientMessage where
  connection : ℕ
  payload : ControlMessagePayload
  deriving DecidableEq, Repr

def daemonStep (controlPlane : ControlPlaneManager) (m : ClientMessage) :
    Option ControlMessagePayload × ControlPlaneManager :=
  match processControlPayload m.payload controlPlane with
  | some (response, controlPlane') => (some response, controlPlane')
  | none => (none, controlPlane)

abbrev DaemonEvent := Event ControlPlaneManager ClientMessage (Option ControlMessagePayload)

end Virthub.Klnk.Daemon
