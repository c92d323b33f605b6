import Dinit.Client.StartStop

namespace Dinit

def CpCmd.byte : CpCmd → UInt8
  | .queryVersion => 0
  | .findService => 1
  | .loadService => 2
  | .startService => 3
  | .stopService => 4
  | .wakeService => 5
  | .releaseService => 6
  | .unpinService => 7
  | .listServices => 8
  | .unloadService => 9
  | .shutdown => 10
  | .addDep => 11
  | .remDep => 12
  | .queryLoadMech => 13
  | .enableService => 14
  | .queryServiceName => 15
  | .reloadService => 16
  | .setEnv => 17
  | .serviceStatus => 18
  | .setTrigger => 19
  | .catlog => 20
  | .signal => 21
  | .queryServiceDscDir => 22
  | .closeHandle => 23
  | .getAllEnv => 24
  | .listServices5 => 25
  | .serviceStatus5 => 26
  | .listenEnv => 27

def DependencyType.code : DependencyType → UInt8
  | .regular => 0
  | .soft => 1
  | .waitsFor => 2
  | .milestone => 3
  | .before => 4
  | .after => 5
  | .other value => value

namespace Client

/-- `pcommand` in `start_stop_service` -/
def CtlCmd.pcommand : CtlCmd → CpCmd
  | .stopService | .restartService => .stopService
  | .releaseService => .releaseService
  | .startService => .startService
  | .wakeService => .wakeService

/-- `flags` in `start_stop_service`: pin, gentle, restart and a reply before it is carried out -/
def CtlCmd.flags (command : CtlCmd) (doPin doForce : Bool) : UInt8 :=
  (if doPin then 1 else 0)|||(if command.pcommand=.stopService ∧ ¬doForce then 2 else 0)|||
    (if command=.restartService then 132 else 0)

def handleBytes (handle : UInt32) : List UInt8 := nativeBytes 4 handle.toNat

/-- A request of a client, by the function that sends it. -/
inductive CtlRequest
  | queryVersion
  | issueLoadService (serviceName : List UInt8) (findOnly : Bool)
  | startStopService (command : CtlCmd) (doPin doForce : Bool) (handle : UInt32)
  | unpinService (handle : UInt32)
  | unloadService (handle : UInt32)
  | reloadService (handle : UInt32)
  | listServices (v5 : Bool)
  | serviceStatus (v5 : Bool) (handle : UInt32)
  | addRemoveDependency (add : Bool) (depType : DependencyType) (fromHandle toHandle : UInt32)
  | enableDisableService (enable : Bool) (fromHandle toHandle : UInt32)
  | shutdownDinit
  | getServiceName (handle : UInt32)
  | getServiceDescriptionDir (handle : UInt32)
  | doSetenv (envVar : List UInt8)
  | triggerService (handle : UInt32) (triggerValue : Bool)
  | signalSend (sigNum handle : UInt32)
  | catServiceLog (handle : UInt32) (doClear : Bool)
  | getAllEnv
  | requestEnviron
  | queryLoadMech
deriving DecidableEq

/-- A request with a string, its length in two bytes before it. -/
def stringPacket (cmd : CpCmd) (str : List UInt8) : Packet :=
  cmd.byte::nativeBytes 2 str.length++str.take (str.length%65536)

namespace CtlRequest

/-- The bytes that are written to the server. -/
def packet : CtlRequest → Packet
  | queryVersion => [CpCmd.queryVersion.byte]
  | issueLoadService serviceName findOnly =>
    stringPacket (if findOnly then .findService else .loadService) serviceName
  | startStopService command doPin doForce handle =>
    [command.pcommand.byte,command.flags doPin doForce]++handleBytes handle
  | unpinService handle => CpCmd.unpinService.byte::handleBytes handle
  | unloadService handle => CpCmd.unloadService.byte::handleBytes handle
  | reloadService handle => CpCmd.reloadService.byte::handleBytes handle
  | listServices v5 => [(if v5 then CpCmd.listServices5 else .listServices).byte]
  | serviceStatus v5 handle =>
    (if v5 then CpCmd.serviceStatus5 else .serviceStatus).byte::handleBytes handle
  | addRemoveDependency add depType fromHandle toHandle =>
    [(if add then CpCmd.addDep else .remDep).byte,depType.code]++handleBytes fromHandle++
      handleBytes toHandle
  | enableDisableService enable fromHandle toHandle =>
    [(if enable then CpCmd.enableService else .remDep).byte,DependencyType.waitsFor.code]++
      handleBytes fromHandle++handleBytes toHandle
  -- of type HALT
  | shutdownDinit => [CpCmd.shutdown.byte,2]
  | getServiceName handle => [CpCmd.queryServiceName.byte,0]++handleBytes handle
  | getServiceDescriptionDir handle => [CpCmd.queryServiceDscDir.byte,0]++handleBytes handle
  | doSetenv envVar => stringPacket .setEnv envVar
  | triggerService handle triggerValue =>
    CpCmd.setTrigger.byte::handleBytes handle++[if triggerValue then 1 else 0]
  | signalSend sigNum handle => CpCmd.signal.byte::handleBytes sigNum++handleBytes handle
  | catServiceLog handle doClear =>
    [CpCmd.catlog.byte,if doClear then 1 else 0]++handleBytes handle
  | getAllEnv => [CpCmd.getAllEnv.byte,0]
  | requestEnviron => [CpCmd.listenEnv.byte]
  | queryLoadMech => [CpCmd.queryLoadMech.byte]

end CtlRequest

/-- The variable that `do_setenv` sends for an argument: without a value, it is given the one in
the environment of dinitctl. None if the argument is refused. -/
def setenvVar (getenv : List UInt8 → Option (List UInt8)) (unset : Bool) (envp : List UInt8) :
    Option (List UInt8) :=
  let eq := envp.contains 61
  if eq && unset then none
  else
    let envVar := if !eq && !unset then envp++61::(getenv envp).getD [] else envp
    if 1024<1+2+envVar.length then none else some envVar

end Client
end Dinit
