import PrinterDriver.Core.CashDrawer
import PrinterDriver.Engine.Ops

/-! # The opening sequence of the cash drawer

`openDrawer` refuses or puts one task on the worker of the printer: read the switch, pulse once,
watch the switch, deliver the verdict. The task shares `sendPaced` and the queued answers with the
jobs; what else it does is `Peripheral`. A registered vendor method is code of the integrator: its
functions are parameters that return. -/

namespace PrinterDriver.Engine.Drawer

open PrinterDriver.Lib.Programs PrinterDriver.Core.Types PrinterDriver.Core.Profile
  PrinterDriver.Core.CashDrawer PrinterDriver.Engine.Io PrinterDriver.Engine.Ops

open Prog

/-- A registered kick: the pulse, and the question and the reader of the switch if it has one. -/
structure DrawerKickReg where
  kickBytes : UInt8 → UInt16 → Bytes
  statusRequest : Option Bytes := none
  statusParse : Option (UInt8 → Option Bool) := none

def DrawerKickReg.readable (r : DrawerKickReg) : Bool :=
  r.statusRequest.isSome && r.statusParse.isSome

/-- What the task reads: the profile and its drawer port, the request, and the registry. -/
structure DrawerRun where
  profile : CapabilityProfile
  caps : DrawerCapabilities
  request : DrawerRequest
  registrations : Bytes → Option DrawerKickReg

/-! ### The interface of the task -/

inductive PeripheralCall where
  | worker (c : Call)
  /-- `awaitQueued` with the byte that answered. -/
  | awaitAnswer
  | forget
  | noteLevel (high : Bool)
  | drawerPin
  /-- Sleep out what is left of the cooldown of the previous pulse. -/
  | coolDown (ms : UInt16)
  | pulsed
  /-- The driver is stopping, or the window is over. -/
  | overdue
  | pause (ms : UInt16)
  | deliver (result : DrawerOpenResult)

@[reducible] def PeripheralCall.Answer : PeripheralCall → Type
  | .worker c => c.Answer
  | .awaitAnswer => WaitOutcome × UInt8
  | .drawerPin => Option Bool
  | .overdue => Bool
  | .forget | .noteLevel _ | .coolDown _ | .pulsed | .pause _ | .deliver _ => Unit

@[reducible] def Peripheral : Interface := ⟨PeripheralCall, PeripheralCall.Answer⟩

/-- A piece of a job's program inside the task. -/
def onWorker {α : Type} (p : Prog Worker α) : Prog Peripheral α :=
  @Prog.embed _ _ Peripheral PeripheralCall.worker (fun _ a => a) p

namespace DrawerRun

variable (d : DrawerRun)

def vendorDrawerKick : Option DrawerKickReg :=
  if d.caps.kick.method ≠ .vendor ∨ d.caps.kick.vendorId = [] then none
  else d.registrations d.caps.kick.vendorId

/-- The port is one that this engine may fire, and the driver is not stopping. -/
def accepted (stopping : Bool) : Bool :=
  let vendorDrivable := d.caps.present && d.caps.electricalKnown &&
    d.caps.kick.method = .vendor && d.vendorDrawerKick.isSome
  (d.caps.kickable || vendorDrivable) && d.profile.drivableByEscposEngine && !stopping

/-- The request that the switch answers. -/
def statusRequest : Bytes :=
  match d.vendorDrawerKick with
  | some r => if r.readable then r.statusRequest.getD [] else gsDrawerStatus
  | none => gsDrawerStatus

/-- The level in an answer; a vendor's reader may find none. -/
def levelOf (answer : UInt8) : Option Bool :=
  match d.vendorDrawerKick with
  | some r =>
    if r.readable then r.statusParse.bind fun parse => parse answer else some (drawerPinHigh answer)
  | none => some (drawerPinHigh answer)

/-- An expectation that nobody answered goes with the phase that asked for it. -/
def unanswered : Prog Peripheral (Option Bool) := do
  perform (E := Peripheral) .forget
  return none

def pollDrawerPin : Prog Peripheral (Option Bool) := do
  perform (E := Peripheral) (.worker (.io (.expectQueued .drawer)))
  let sent ← onWorker (sendPaced d.profile .drawer d.statusRequest)
  if !sent.ok then unanswered
  else
    let (outcome, answer) ← (perform (E := Peripheral) .awaitAnswer :
      Prog Peripheral (WaitOutcome × UInt8))
    if outcome ≠ .signalled then unanswered
    else
      match d.levelOf answer with
      | none => return none
      | some high => do
        perform (E := Peripheral) (.noteLevel high)
        return some high

def sensor : Bool :=
  d.caps.sensorReadable || (d.vendorDrawerKick.map DrawerKickReg.readable).getD false

/-- The level before the pulse, where there is a switch. -/
def levelBefore : Prog Peripheral (Option Bool) :=
  if d.sensor then d.pollDrawerPin else return none

def pollInterval : UInt16 :=
  if d.caps.status.pollIntervalMs ≠ 0 then d.caps.status.pollIntervalMs else 100

def verifyWindow : UInt16 :=
  if d.caps.status.verifyWindowMs ≠ 0 then d.caps.status.verifyWindowMs else 1500

/-- A level that says the drawer went out: its name, or without a calibration that it moved. -/
def moved (before level : Bool) : Bool :=
  if d.caps.status.polarity.calibrated then level = d.caps.status.polarity.highMeansOpen
  else level ≠ before

/-- Without an answer, the level that was read last from anywhere. -/
def lastLevel : Option Bool → Prog Peripheral (Option Bool)
  | some high => return some high
  | none => perform (E := Peripheral) .drawerPin

inductive Sighting where
  | verified
  | answered
  | silent
  deriving DecidableEq, Repr

/-- Watch the switch. Each round sleeps the poll interval, so the window is over after as many
rounds as intervals fit in it: that is the fuel, and the last round does not look at the clock. -/
def watch (before : Bool) : ℕ → Sighting → Prog Peripheral Sighting
  | rounds, seen => do
    let polled ← d.pollDrawerPin
    let level ← lastLevel polled
    let seen := if level.isSome then .answered else seen
    if (level.map (d.moved before)).getD false then return .verified
    else
      match rounds with
      | 0 => return seen
      | rounds + 1 => do
        let late : Bool ← perform (E := Peripheral) .overdue
        if late then return seen
        else
          perform (E := Peripheral) (.pause d.pollInterval)
          watch before rounds seen

def rounds : ℕ := (d.verifyWindow.toNat + d.pollInterval.toNat - 1) / d.pollInterval.toNat

def verdict : Sighting → DrawerState
  | .verified => .openVerified
  | .silent => .kickSentUnverified
  | .answered =>
    if d.caps.status.polarity.calibrated then .failedToOpen else .kickSentUnverified

/-- The bytes of the pulse; `none` is an `EncodingError`. -/
def pulse (result : DrawerOpenResult) : Option Bytes :=
  match d.vendorDrawerKick with
  | some r => some (r.kickBytes result.channel result.pulseMs)
  | none => drawerKick result.channel result.pulseMs

/-- Without a cooldown there is nothing to sleep out. -/
def coolDown : Prog Peripheral Unit :=
  if d.caps.kick.cooldownMs ≠ 0 then perform (E := Peripheral) (.coolDown d.caps.kick.cooldownMs)
  else return ()

/-- One pulse, and what the switch says of it. -/
def kick (before : Option Bool) (result : DrawerOpenResult) : Prog Peripheral DrawerOpenResult :=
  match d.pulse result with
  | none => onWorker uncaught
  | some bytes => do
    let sent ← onWorker (sendPaced d.profile .drawer bytes)
    perform (E := Peripheral) .pulsed
    if !sent.ok then return { result with state := .unknown }
    else
      match before with
      | none => return { result with state := .kickSentUnverified }
      | some before => do
        let seen ← d.watch before d.rounds .silent
        return { result with state := d.verdict seen }

def fire (before : Option Bool) (result : DrawerOpenResult) :
    Prog Peripheral DrawerOpenResult := do
  d.coolDown
  d.kick before result

/-- A drawer that is already out is never pulsed again. -/
def runDrawerSequence : Prog Peripheral DrawerOpenResult := do
  let result : DrawerOpenResult :=
    { channel := d.caps.channelFor d.request.channel, pulseMs := d.caps.pulseFor d.request.pulseMs }
  let connected : Bool ← perform (E := Peripheral) (.worker .ensureConnected)
  if !connected then return { result with pulseMs := 0 }
  else
    perform (E := Peripheral) (.worker (.io .beginJobIo))
    let before ← d.levelBefore
    match before with
    | some high =>
      let previous := drawerStateFrom high d.caps.status.polarity
      if previous = .opened then
        return { result with pulseMs := 0, previousState := .opened, state := .opened }
      else d.fire before { result with previousState := previous }
    | none =>
      d.fire before { result with previousState := if d.sensor then .unknown else .noSensor }

/-- The task of an accepted request. -/
def openDrawer : Prog Peripheral Unit := do
  let result ← d.runDrawerSequence
  perform (E := Peripheral) (.deliver result)

end DrawerRun

end PrinterDriver.Engine.Drawer
