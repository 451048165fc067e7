import PrinterDriver.Core.Types

/-! # Capability profiles

The part of a `CapabilityProfile` that the job engines read: the command language, the completion
mechanism, the status, media and Star facets, the cut, the chunk size and the wait budgets. -/

namespace PrinterDriver.Core.Profile

open PrinterDriver.Core.Types

inductive CommandLanguage where
  | escPos | starPrnt | starLine | eposXml | zpl | cpcl | brotherRaster | escP
  deriving DecidableEq, Repr

inductive CompletionMechanism where
  | gsParenH | gsR1 | vendorIdle | eposJobId | starCheckedBlock | none | starEtb | starEscGsEtx
  deriving DecidableEq, Repr

inductive CutVariant where
  | partialCut | full | none
  deriving DecidableEq, Repr

inductive CodePage where
  | pc437 | pc850 | wpc1252 | pc852 | pc858
  deriving DecidableEq, Repr

structure StatusCapabilities where
  dleEot : Bool := true
  deriving DecidableEq, Repr

structure Quirks where
  extraFeedBeforeCut : UInt8 := 0
  deriving DecidableEq, Repr

structure MediaProfile where
  headToCutterFeedDots : UInt16 := 120
  deriving DecidableEq, Repr

structure StarCapabilities where
  exclusiveSingleSession : Bool := false
  asbBlockBytes : UInt8 := 8
  rasterLineMode : Bool := true
  deriving DecidableEq, Repr

structure CapabilityProfile where
  language : CommandLanguage := .escPos
  completion : CompletionMechanism := .gsR1
  completionVendorId : Bytes := []
  status : StatusCapabilities := {}
  quirks : Quirks := {}
  media : MediaProfile := {}
  star : StarCapabilities := {}
  cut : CutVariant := .partialCut
  chunkBytes : ℕ := 0
  completionTimeoutMs : ℕ := 15000
  preflightTimeoutMs : ℕ := 2000
  finalFeedLines : UInt8 := 4
  codePage : CodePage := .pc437
  deriving DecidableEq, Repr

def isDrivableByEscposEngine : CompletionMechanism → Bool
  | .gsParenH | .gsR1 | .none => true
  | .vendorIdle | .eposJobId | .starCheckedBlock | .starEtb | .starEscGsEtx => false

def isDrivableByStarEngine : CompletionMechanism → Bool
  | .starEtb | .starEscGsEtx | .none => true
  | .gsParenH | .gsR1 | .vendorIdle | .eposJobId | .starCheckedBlock => false

/-- The ceiling a completion mechanism allows. -/
def CapabilityProfile.maxConfidence (p : CapabilityProfile) : ConfidenceLevel :=
  match p.completion with
  | .gsParenH => .cutFaultFree
  | .gsR1 => .cutProcessed
  | .vendorIdle | .eposJobId | .starCheckedBlock => .cutProcessed
  | .starEtb | .starEscGsEtx => .cutProcessed
  | .none => .transportAccepted

def evidenceFor : CompletionMechanism → JobEvidence
  | .gsParenH => ⟨.aJobLevelConfirmation, .physicalPrinter, str "GS(H) fn48"⟩
  | .gsR1 => ⟨.bOrderedDeviceResponse, .physicalPrinter, str "GS r 1"⟩
  | .vendorIdle => ⟨.bOrderedDeviceResponse, .physicalPrinter, str "vendor idle query"⟩
  | .eposJobId => ⟨.aPlusDurableQueryableJob, .vendorSpooler, str "ePOS JobID"⟩
  | .starCheckedBlock => ⟨.aJobLevelConfirmation, .physicalPrinter, str "Star checked block"⟩
  | .starEtb => ⟨.aJobLevelConfirmation, .physicalPrinter, str "ETB"⟩
  | .starEscGsEtx => ⟨.aJobLevelConfirmation, .physicalPrinter, str "ESC GS ETX"⟩
  | .none => ⟨.eTransportOnly, .transportOnly, str "transport-only"⟩

def CapabilityProfile.evidence (p : CapabilityProfile) : JobEvidence := evidenceFor p.completion

def CapabilityProfile.drivableByEscposEngine (p : CapabilityProfile) : Bool :=
  p.language = .escPos && isDrivableByEscposEngine p.completion

/-- Star languages and fences; ETB only on an exclusive session. -/
def CapabilityProfile.drivableByStarEngine (p : CapabilityProfile) : Bool :=
  if p.language ≠ .starPrnt ∧ p.language ≠ .starLine then false
  else if !isDrivableByStarEngine p.completion then false
  else if p.completion = .starEtb ∧ !p.star.exclusiveSingleSession then false
  else true

/-- The probed XP-S260M. -/
def xpS260m : CapabilityProfile :=
  { language := .escPos, completion := .gsParenH, cut := .partialCut, status := { dleEot := true },
    media := { headToCutterFeedDots := 120 }, chunkBytes := 0, completionTimeoutMs := 15000,
    preflightTimeoutMs := 2000, finalFeedLines := 3, codePage := .pc852 }

/-- The conservative default: the `GS r 1` fence, paced. -/
def genericEscpos : CapabilityProfile :=
  { language := .escPos, completion := .gsR1, cut := .partialCut, status := { dleEot := true },
    chunkBytes := 1024, completionTimeoutMs := 20000, preflightTimeoutMs := 2000,
    finalFeedLines := 6, codePage := .pc437 }

end PrinterDriver.Core.Profile
