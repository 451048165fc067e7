import PrinterDriver.Core.EncoderOps

/-! # The bands of an image

What the two raster operations put, read as a printer reads it: every `GS v 0` command declares the
bytes of a row and the number of its rows in 16 bits each, and the image follows. `wellFormed_iff` says
which calls declare what they put: `rasterGrayscale` does not look at the length of its rows. -/

namespace PrinterDriver.Core.RasterBands

open PrinterDriver.Core.Types PrinterDriver.Core.Encoder PrinterDriver.Core.Transcode
  PrinterDriver.Core.Raster PrinterDriver.Core.Commands PrinterDriver.Core.EncoderOps

/-! ### Reading a band -/

/-- What a `GS v 0` command declares, and what follows its header. -/
structure Band where
  rowBytes : ℕ
  rows : ℕ
  image : Bytes
  deriving DecidableEq, Repr

def readBand : Put → Option Band
  | .command (0x1D :: 0x76 :: 0x30 :: _ :: xl :: xh :: yl :: yh :: image) =>
    some ⟨le16 xl xh, le16 yl yh, image⟩
  | _ => none

/-- The bytes of a band are those that it declares. -/
structure Band.Fits (rowBytes limit : ℕ) (b : Band) : Prop where
  declared : b.image.length = b.rowBytes * b.rows
  width : b.rowBytes = rowBytes
  some : 1 ≤ b.rows
  allowed : b.rows ≤ limit

/-- The puts are bands of the image, none lost and none repeated. -/
def WellFormed (rowBytes limit : ℕ) (image : Bytes) (puts : List Put) : Prop :=
  ∃ bands, puts.mapM readBand = some bands ∧ (∀ b ∈ bands, b.Fits rowBytes limit) ∧
    bands.flatMap Band.image = image

/-! ### The bands that are put -/

variable {scale : UInt8} {w band : ℕ}

theorem readBand_command (rows : ℕ) (image : Bytes) :
    readBand (.command ([0x1D, 0x76, 0x30, scale] ++ lowHigh w ++ lowHigh rows ++ image)) =
      some ⟨w % 65536, rows % 65536, image⟩ := by
  have hread : readBand (.command ([0x1D, 0x76, 0x30, scale] ++ lowHigh w ++ lowHigh rows ++ image)) =
      some ⟨le16 (UInt8.ofNat w) (UInt8.ofNat (w / 256)),
        le16 (UInt8.ofNat rows) (UInt8.ofNat (rows / 256)), image⟩ := rfl
  rw [hread, le16_lowHigh, le16_lowHigh]

/-- The bands of an image of at most 65535 rows, whatever the length of a row. -/
theorem bands_rasterPuts : ∀ {height : ℕ} {data : Bytes}, height ≤ kMaxRasterRows →
    data.length = w * height → ∃ bands : List Band,
      (rasterPuts scale w band height data).mapM readBand = some bands ∧
      (∀ b ∈ bands, b.rowBytes = w % 65536 ∧ b.image.length = w * b.rows ∧ 1 ≤ b.rows ∧
        b.rows ≤ max band 1) ∧
      bands.flatMap Band.image = data ∧ (0 < height → bands ≠ [])
  | 0, data, _, hlen => by
    rw [rasterPuts]
    have hnil : data = [] := List.eq_nil_of_length_eq_zero (by simpa using hlen)
    exact ⟨[], rfl, by simp, by simp [hnil], by simp⟩
  | height + 1, data, hmax, hlen => by
    rw [rasterPuts]
    obtain ⟨rows, hrows⟩ : ∃ rows, rows = min (max band 1) (height + 1) := ⟨_, rfl⟩
    rw [← hrows]
    have hpos : 0 < rows := by omega
    have hle : rows ≤ height + 1 := by omega
    have hsmall : rows % 65536 = rows := Nat.mod_eq_of_lt (by unfold kMaxRasterRows at hmax; omega)
    have htake : (data.take (w * rows)).length = w * rows := by
      rw [List.length_take, hlen]
      exact Nat.min_eq_left (Nat.mul_le_mul_left w hle)
    have hdrop : (data.drop (w * rows)).length = w * (height + 1 - rows) := by
      rw [List.length_drop, hlen, Nat.mul_sub]
    obtain ⟨bands, hread, hbands, hdata, -⟩ :=
      @bands_rasterPuts (height + 1 - rows) (data.drop (w * rows)) (by omega) hdrop
    refine ⟨⟨w % 65536, rows % 65536, data.take (w * rows)⟩ :: bands, ?_, ?_, ?_, by simp⟩
    · rw [List.mapM_cons, readBand_command, hread]
      rfl
    · rw [List.forall_mem_cons]
      refine ⟨⟨rfl, ?_, ?_, ?_⟩, hbands⟩ <;> dsimp only <;> rw [hsmall]
      · exact htake
      · exact hpos
      · omega
    · rw [List.flatMap_cons, hdata]
      exact List.take_append_drop _ _

/-- Bands declare their image just if its rows fit the field. -/
theorem wellFormed_rasterPuts {height limit : ℕ} {data : Bytes} (hpos : 0 < height)
    (hmax : height ≤ kMaxRasterRows) (hlen : data.length = w * height) (hlimit : max band 1 ≤ limit) :
    WellFormed w limit data (rasterPuts scale w band height data) ↔ w < 65536 := by
  obtain ⟨bands, hread, hbands, hdata, hsome⟩ :=
    @bands_rasterPuts scale w band height data hmax hlen
  constructor
  · rintro ⟨bands', hread', hfits, -⟩
    obtain rfl := Option.some.inj (hread.symm.trans hread')
    obtain ⟨b, hb⟩ := List.exists_mem_of_ne_nil bands (hsome hpos)
    have hw : w % 65536 = w := (hbands b hb).1.symm.trans (hfits b hb).width
    omega
  · intro hw
    refine ⟨bands, hread, fun b hb => ?_, hdata⟩
    obtain ⟨hwidth, himage, hrows, hband⟩ := hbands b hb
    rw [Nat.mod_eq_of_lt hw] at hwidth
    exact ⟨by rw [himage, hwidth], hwidth, hrows, by omega⟩

/-! ### The two operations -/

/-- The image of a raster operation that returns, packed: the bytes of its rows, their number and the
rows a band may have. -/
def imageOf : EncoderOp → Option (PackedRaster × ℕ)
  | .rasterPacked data widthDots heightDots _ maxRowsPerBand =>
    some (⟨widthDots, heightDots, bytesPerRow widthDots, data⟩, maxRowsPerBand)
  | .rasterGrayscale raster targetWidthDots _ =>
    (packGrayscale raster targetWidthDots).toOption.map fun packed => (packed, raster.maxRowsPerBand)
  | _ => none

/-- The packer computes rows of any length. -/
def RowsFit : EncoderOp → Prop
  | .rasterGrayscale _ targetWidthDots _ => bytesPerRow targetWidthDots < 65536
  | _ => True

theorem max_bandOf {limit height : ℕ} (h : 0 < height) :
    max (bandOf limit height) 1 ≤ bandOf limit height := by
  unfold bandOf
  split_ifs <;> omega

/-- **Which raster operations declare what they put.** -/
theorem wellFormed_iff {s s' : Style} {op : EncoderOp} {puts : List Put} {packed : PackedRaster}
    {limit : ℕ} (h : perform s op = some (s', puts)) (himage : imageOf op = some (packed, limit)) :
    WellFormed packed.bytesPerRow (bandOf limit packed.heightDots) packed.data puts ↔
      RowsFit op := by
  cases op with
  | rasterPacked data widthDots heightDots scale maxRowsPerBand =>
    rw [perform] at h
    split_ifs at h with hzero hlarge hlen
    cases h
    cases himage
    have hrows : bytesPerRow widthDots < 65536 := by
      unfold kMaxRasterBytesPerRow at hlarge
      omega
    have hpos : 0 < heightDots := by omega
    rw [wellFormed_rasterPuts hpos (by omega) (not_not.mp hlen) (max_bandOf hpos)]
    exact iff_of_true hrows trivial
  | rasterGrayscale raster targetWidthDots scale =>
    obtain ⟨packed', hpacked, he⟩ := Option.map_eq_some_iff.mp h
    cases he
    rw [imageOf, hpacked] at himage
    cases himage
    obtain ⟨hrow, hpos, hmax, hlen⟩ := packed_shape (ok_of_toOption hpacked)
    rw [wellFormed_rasterPuts hpos hmax hlen (max_bandOf hpos), hrow]
    rfl
  | _ => cases himage

/-- A photograph of one row. -/
def wideImage : RasterPayload := { gray := List.replicate 524288 0, width := 524288, height := 1 }

/-- Its rows are of 65536 bytes, and the field says zero. -/
theorem wellFormed_wide : ¬∀ (s s' : Style) (op : EncoderOp) (puts : List Put)
    (packed : PackedRaster) (limit : ℕ), perform s op = some (s', puts) →
      imageOf op = some (packed, limit) →
        WellFormed packed.bytesPerRow (bandOf limit packed.heightDots) packed.data puts := by
  intro hall
  have hpacks : (packGrayscale wideImage 524288).toOption.isSome = true := by
    refine (pack_isSome_iff (by decide) (by decide) (by decide)).mpr ⟨by decide, ?_, ?_, ?_⟩
    · decide
    · rw [show wideImage.gray.length = 524288 from List.length_replicate]
      decide
    · exact .inl (by decide)
  obtain ⟨packed, hpacked⟩ := Option.isSome_iff_exists.mp hpacks
  have himage : imageOf (.rasterGrayscale wideImage 524288 .normal) = some (packed, 1024) := by
    rw [imageOf, hpacked]
    rfl
  obtain ⟨hrow, hpos, hmax, hlen⟩ := packed_shape (ok_of_toOption hpacked)
  have hwell := hall {} {} (.rasterGrayscale wideImage 524288 .normal) _ packed 1024
    (by rw [perform, hpacked]; rfl) himage
  have hlt := (wellFormed_rasterPuts hpos hmax hlen (max_bandOf hpos)).mp hwell
  rw [hrow] at hlt
  exact absurd hlt (by decide)

/-- Two rows of nine dots, in bands of one row. -/
theorem wellFormed_nineDots : WellFormed 2 1 [0xFF, 0x80, 0x01, 0x00]
    [.command [0x1D, 0x76, 0x30, 0, 2, 0, 1, 0, 0xFF, 0x80],
      .command [0x1D, 0x76, 0x30, 0, 2, 0, 1, 0, 0x01, 0x00]] := by
  have hput : perform {} (.rasterPacked [0xFF, 0x80, 0x01, 0x00] 9 2 .normal 1) =
      some ({}, [.command [0x1D, 0x76, 0x30, 0, 2, 0, 1, 0, 0xFF, 0x80],
        .command [0x1D, 0x76, 0x30, 0, 2, 0, 1, 0, 0x01, 0x00]]) := by
    simp [perform, rasterPuts, bytesPerRow, bandOf, kMaxRasterBytesPerRow, kMaxRasterRows, lowHigh,
      RasterScale.toByte]
  have himage : imageOf (.rasterPacked [0xFF, 0x80, 0x01, 0x00] 9 2 .normal 1) =
      some (⟨9, 2, 2, [0xFF, 0x80, 0x01, 0x00]⟩, 1) := by decide
  exact (wellFormed_iff hput himage).mpr trivial

end PrinterDriver.Core.RasterBands
