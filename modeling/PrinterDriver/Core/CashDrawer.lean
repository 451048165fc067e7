import PrinterDriver.Core.Types

/-! # The cash drawer

What a profile says of the drawer port, and the arithmetic on it: which ports may be fired, the
channel and the pulse of a request, and what a level of the switch means. -/

namespace PrinterDriver.Core.CashDrawer

open PrinterDriver.Core.Types

inductive DrawerState where
  | closed | opened | opening | kickSentUnverified | openVerified | failedToOpen | noSensor | unknown
  deriving DecidableEq, Repr

inductive DrawerPortStandard where
  | epson24V6P6C | star24V6P6C | generic12V6P6C | unknown
  deriving DecidableEq, Repr

inductive DrawerKickMethod where
  | epsonEscP | epsonEpos | starPrnt | bixolonSdk | citizenEscP | snbcEscP | vendor | unsupported
  deriving DecidableEq, Repr

inductive DrawerStatusMethod where
  | gsR2 | asb | starSignal | vendorSdk | none
  deriving DecidableEq, Repr

structure DrawerElectrical where
  standard : DrawerPortStandard := .unknown
  channelCount : UInt8 := 0
  deriving DecidableEq, Repr

structure DrawerKick where
  method : DrawerKickMethod := .unsupported
  vendorId : Bytes := []
  defaultPulseMs : UInt16 := 200
  maxPulseMs : UInt16 := 500
  cooldownMs : UInt16 := 0
  deriving DecidableEq, Repr

structure DrawerPolarity where
  calibrated : Bool := false
  highMeansOpen : Bool := false
  deriving DecidableEq, Repr

structure DrawerSensing where
  available : Bool := false
  method : DrawerStatusMethod := .none
  polarity : DrawerPolarity := {}
  verifyWindowMs : UInt16 := 1500
  pollIntervalMs : UInt16 := 100
  deriving DecidableEq, Repr

structure DrawerCapabilities where
  present : Bool := false
  electrical : DrawerElectrical := {}
  kick : DrawerKick := {}
  status : DrawerSensing := {}
  deriving DecidableEq, Repr

structure DrawerRequest where
  channel : UInt8 := 1
  pulseMs : UInt16 := 0
  deriving DecidableEq, Repr

/-- The answer to a request; the measured time is left out. -/
structure DrawerOpenResult where
  state : DrawerState := .unknown
  previousState : DrawerState := .unknown
  channel : UInt8 := 1
  pulseMs : UInt16 := 0
  deriving DecidableEq, Repr

namespace DrawerCapabilities

variable (caps : DrawerCapabilities)

def electricalKnown : Bool := caps.electrical.standard ≠ .unknown

def sensorReadable : Bool :=
  caps.present && caps.status.available && caps.status.method = .gsR2

/-- A port that nobody has classified gets no current, whatever its commands. -/
def kickable : Bool :=
  if !caps.present || caps.kick.method = .unsupported then false
  else if !caps.electricalKnown then false
  else
    match caps.kick.method with
    | .epsonEscP | .citizenEscP | .snbcEscP => true
    | .epsonEpos | .starPrnt | .bixolonSdk | .vendor | .unsupported => false

/-- Clamped, and rounded down to units of 2 ms. -/
def pulseFor (requestedMs : UInt16) : UInt16 :=
  let pulse := if requestedMs ≠ 0 then requestedMs else caps.kick.defaultPulseMs
  let pulse := if caps.kick.maxPulseMs ≠ 0 ∧ caps.kick.maxPulseMs < pulse then caps.kick.maxPulseMs
    else pulse
  let pulse := pulse - pulse % 2
  if pulse < 2 then 2 else pulse

/-- Clamped to the documented channels, at least one. -/
def channelFor (requested : UInt8) : UInt8 :=
  let channels := if caps.electrical.channelCount ≠ 0 then caps.electrical.channelCount else 1
  let channel := if requested ≠ 0 then requested else 1
  if channels < channel then channels else channel

end DrawerCapabilities

/-- The sense pin in an answer to `GS r 2`. -/
def drawerPinHigh (answer : UInt8) : Bool := answer &&& 0x01 ≠ 0

/-- An uncalibrated level has no name. -/
def drawerStateFrom (pinHigh : Bool) (polarity : DrawerPolarity) : DrawerState :=
  if !polarity.calibrated then .unknown
  else if (if polarity.highMeansOpen then pinHigh else !pinHigh) then .opened
  else .closed

/-- `GS r 2`. -/
def gsDrawerStatus : Bytes := [0x1D, 0x72, 0x02]

/-- `ESC p` in units of 2 ms, saturating; `none` is an `EncodingError`. -/
def drawerKick (channel : UInt8) (pulseMs : UInt16) : Option Bytes :=
  if channel ≠ 1 ∧ channel ≠ 2 then none
  else
    let onUnits := min (pulseMs.toNat / 2) 255
    let offUnits := min (onUnits * 2) 255
    some [0x1B, 0x70, channel - 1, UInt8.ofNat (if onUnits = 0 then 1 else onUnits),
      UInt8.ofNat (if offUnits = 0 then 1 else offUnits)]

/-- The pulse is refused exactly on a third channel of a port that documents one. -/
theorem drawerKick_isNone_iff {caps : DrawerCapabilities} {requested : UInt8} {pulseMs : UInt16} :
    drawerKick (caps.channelFor requested) pulseMs = none ↔
      2 < caps.electrical.channelCount ∧ 2 < requested := by
  have hthird : drawerKick (caps.channelFor requested) pulseMs = none ↔
      caps.channelFor requested ≠ 1 ∧ caps.channelFor requested ≠ 2 := by
    unfold drawerKick
    split_ifs with h
    · exact iff_of_true rfl h
    · exact iff_of_false (by simp) h
  rw [hthird]
  unfold DrawerCapabilities.channelFor
  dsimp only
  simp only [ne_eq, ← UInt8.toNat_inj, UInt8.lt_iff_toNat_lt]
  split_ifs <;> simp_all <;> omega

end PrinterDriver.Core.CashDrawer
