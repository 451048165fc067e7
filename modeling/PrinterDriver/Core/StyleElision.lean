import PrinterDriver.Core.Paper
import PrinterDriver.Core.StarOps
import PrinterDriver.Lib.Interpreting

/-! # Leaving out style commands

An encoder remembers what it has selected and leaves out a style command that would select it again. The
printer's side is a machine that reads commands and bytes of its own from the stream and obeys the style
commands. Where the text has no byte that begins a command, what is left out is not missed: every byte is
shown in the look that it has when every style command is sent (`invisible_elision`). -/

namespace PrinterDriver.Core.StyleElision

open PrinterDriver.Core.Types PrinterDriver.Core.Profile PrinterDriver.Core.Encoder
  PrinterDriver.Core.Raster PrinterDriver.Core.Commands PrinterDriver.Core.EncoderOps
  PrinterDriver.Lib.Interpreting
open PrinterDriver.Core.Transcode (le16)

/-- How the printer shows a byte, each attribute as it was last selected. -/
structure Look where
  alignment : UInt8 := 0
  bold : UInt8 := 0
  underlined : UInt8 := 0
  size : UInt8 := 0
  inverted : UInt8 := 0
  codePage : UInt8 := 0
  deriving DecidableEq, Repr

def piece : Put → Piece UInt8
  | .text c => .own c
  | .command bytes => .command bytes

theorem spelled_eq (puts : List Put) : spelled puts = (puts.map piece).flatMap Piece.items := by
  induction puts with
  | nil => rfl
  | cons put puts ih =>
    rw [spelled_cons, ih, List.map_cons, List.flatMap_cons]
    cases put <;> rfl

/-! ### The ESC/POS printer -/

/-- The style commands that begin with `ESC`: `t`, `a`, `E` and `-`. -/
def obeyEsc (look : Look) (second n : UInt8) : Look :=
  if second = 0x74 then { look with codePage := n }
  else if second = 0x61 then { look with alignment := n }
  else if second = 0x45 then { look with bold := n }
  else if second = 0x2D then { look with underlined := n }
  else look

/-- The style commands that begin with `GS`: `!` and `B`. -/
def obeyGs (look : Look) (second n : UInt8) : Look :=
  if second = 0x21 then { look with size := n }
  else if second = 0x42 then { look with inverted := n }
  else look

/-- `ESC @` resets; no other command changes the look. -/
def obey (look : Look) : Bytes → Look
  | [first, second] => if first = 0x1B ∧ second = 0x40 then {} else look
  | [first, second, n] =>
    if first = 0x1B then obeyEsc look second n
    else if first = 0x1D then obeyGs look second n
    else look
  | _ => look

/-- The bytes behind the first byte of a command. -/
def arity (first : UInt8) (rest : Bytes) : Option ℕ :=
  if first = 0x1D ∧ rest.head? = some 0x42 then some 2
  else (Paper.arguments first rest).map Prod.fst

def escpos : Machine UInt8 Look where
  arity _ := arity
  obey := obey

/-! ### The encoder that leaves nothing out -/

/-- As `perform`, but every style command is sent. -/
def insist (s : Style) : EncoderOp → Option (Style × List Put)
  | .selectCodePage codePage => some ({ s with codePage := codePage },
      [.command [0x1B, 0x74, codePageByte codePage]])
  | .align alignment => some ({ s with alignment := alignment },
      [.command [0x1B, 0x61, alignment.toByte]])
  | .bold enabled => some ({ s with boldOn := enabled },
      [.command [0x1B, 0x45, if enabled then 1 else 0]])
  | .underline dots =>
    if 2 < dots then none
    else some ({ s with underlined := dots }, [.command [0x1B, 0x2D, dots]])
  | .textSize width height =>
    if width < 1 ∨ 8 < width ∨ height < 1 ∨ 8 < height then none
    else some ({ s with sizeWidth := width, sizeHeight := height },
      [.command [0x1D, 0x21, ((width - 1) <<< 4) ||| (height - 1)]])
  | op => perform s op

/-- An operation of an encoder, or the one that empties its buffer and forgets its style. -/
inductive Op (ω : Type) where
  | act (op : ω)
  | clear

section Runs
variable {ω ς : Type} [Inhabited ς] (step : ς → ω → Option (ς × List Put))

/-- The style and the buffer behind a sequence of operations. An operation that throws is passed over. -/
def run : ς × List Put → List (Op ω) → ς × List Put
  | state, [] => state
  | _, .clear :: ops => run (default, []) ops
  | (s, puts), .act op :: ops =>
    match step s op with
    | none => run (s, puts) ops
    | some (s', more) => run (s', puts ++ more) ops

/-- The bytes of a new encoder behind the operations. -/
def bytesOf (ops : List (Op ω)) : Bytes := spelled (run step (default, []) ops).2

end Runs

/-! ### Step by step -/

section Simulation
variable {ω ς σ : Type} [Inhabited ς]

/-- What the two encoders put for one operation, before a printer that shows what they remember. -/
structure Simulates (M : Machine UInt8 σ) (start : σ) (loud quiet : ς → ω → Option (ς × List Put))
    (Agrees : ς → σ → Prop) (Permitted : ω → Prop) : Prop where
  init : Agrees default start
  step : ∀ {s : ς} {look : σ} {op : ω}, Permitted op → Agrees s look →
    (loud s op = none ∧ quiet s op = none) ∨ ∃ s' more less,
      loud s op = some (s', more) ∧ quiet s op = some (s', less) ∧
        M.Elides look (more.map piece) (less.map piece) ∧
        M.Tidy look (more.map piece) ∧ M.Tidy look (less.map piece) ∧
        Agrees s' (M.afterAll look (more.map piece))

variable {M : Machine UInt8 σ} {start : σ} {loud quiet : ς → ω → Option (ς × List Put)}
  {Agrees : ς → σ → Prop} {Permitted : ω → Prop}

/-- The two buffers, as long as they are what the printer has read. -/
structure Paired (M : Machine UInt8 σ) (start : σ) (Agrees : ς → σ → Prop) (s : ς)
    (more less : List Put) : Prop where
  elides : M.Elides start (more.map piece) (less.map piece)
  tidyLoud : M.Tidy start (more.map piece)
  tidyQuiet : M.Tidy start (less.map piece)
  agrees : Agrees s (M.afterAll start (more.map piece))

theorem Simulates.paired_nil (h : Simulates M start loud quiet Agrees Permitted) :
    Paired M start Agrees (default : ς) [] [] := ⟨.nil start, trivial, trivial, h.init⟩

theorem Simulates.run_paired (h : Simulates M start loud quiet Agrees Permitted) :
    ∀ (ops : List (Op ω)), (∀ op, .act op ∈ ops → Permitted op) →
      ∀ {s : ς} {more less : List Put}, Paired M start Agrees s more less →
        ∃ s' more' less', run loud (s, more) ops = (s', more') ∧
          run quiet (s, less) ops = (s', less') ∧ Paired M start Agrees s' more' less'
  | [], _, s, more, less, hp => ⟨s, more, less, rfl, rfl, hp⟩
  | .clear :: ops, hops, _, _, _, _ =>
    h.run_paired ops (fun op hop => hops op (List.mem_cons_of_mem _ hop)) h.paired_nil
  | .act op :: ops, hops, s, more, less, hp => by
    have hrest : ∀ op, .act op ∈ ops → Permitted op := fun op hop =>
      hops op (List.mem_cons_of_mem _ hop)
    rcases h.step (hops op List.mem_cons_self) hp.agrees with
      ⟨hloud, hquiet⟩ | ⟨s', more', less', hloud, hquiet, helides, htidy, htidy', hagrees⟩
    · rw [run, run, hloud, hquiet]
      exact h.run_paired ops hrest hp
    · rw [run, run, hloud, hquiet]
      refine h.run_paired ops hrest ⟨?_, ?_, ?_, ?_⟩
      · rw [List.map_append, List.map_append]
        exact hp.elides.append helides
      · rw [List.map_append]
        exact Machine.tidy_append.mpr ⟨hp.tidyLoud, htidy⟩
      · rw [List.map_append]
        rw [hp.elides.afterAll_eq] at htidy'
        exact Machine.tidy_append.mpr ⟨hp.tidyQuiet, htidy'⟩
      · rw [List.map_append, Machine.afterAll_append]
        exact hagrees

/-- **Nothing that is left out is missed.** -/
theorem Simulates.shown_eq (h : Simulates M start loud quiet Agrees Permitted) {ops : List (Op ω)}
    (hops : ∀ op, .act op ∈ ops → Permitted op) :
    M.shown start (bytesOf loud ops) = M.shown start (bytesOf quiet ops) := by
  obtain ⟨s, more, less, hloud, hquiet, hp⟩ :=
    h.run_paired ops hops h.paired_nil
  rw [bytesOf, bytesOf, hloud, hquiet, spelled_eq, spelled_eq,
    Machine.shown_of_tidy hp.tidyLoud, Machine.shown_of_tidy hp.tidyQuiet, hp.elides.follow_eq]

/-- A style command, or nothing where it would change nothing. -/
theorem elides_changed {look : σ} {same : Bool} {bytes : Bytes}
    (h : same = true → M.obey look bytes = look) :
    M.Elides look [.command bytes] ((changed same bytes).map piece) := by
  cases same with
  | true => exact .leave (h rfl) (.nil look)
  | false => exact .keep _ (.nil _)

theorem tidy_changed {look : σ} {same : Bool} {bytes : Bytes}
    (h : M.TidyPiece look (.command bytes)) : M.Tidy look ((changed same bytes).map piece) := by
  cases same with
  | true => trivial
  | false => exact ⟨h, trivial⟩

/-- A put that is read as what it is and leaves the look. -/
def Steady (M : Machine UInt8 σ) (look : σ) (put : Put) : Prop :=
  M.TidyPiece look (piece put) ∧ M.after look (piece put) = look

theorem tidy_of_steady {look : σ} : ∀ {puts : List Put}, (∀ put ∈ puts, Steady M look put) →
    M.Tidy look (puts.map piece) ∧ M.afterAll look (puts.map piece) = look
  | [], _ => ⟨trivial, rfl⟩
  | put :: puts, h => by
    obtain ⟨htidy, hsame⟩ := h put List.mem_cons_self
    obtain ⟨ht, ha⟩ := tidy_of_steady fun p hp => h p (List.mem_cons_of_mem put hp)
    refine ⟨⟨htidy, ?_⟩, ?_⟩
    · rw [hsame]
      exact ht
    · show M.afterAll (M.after look (piece put)) (puts.map piece) = look
      rw [hsame]
      exact ha

end Simulation

/-! ### The ESC/POS encoder -/

instance : Inhabited Style := ⟨{}⟩

/-- With and without the style commands that select what is selected, the printer shows the same bytes in
the same looks. -/
def Invisible (ops : List (Op EncoderOp)) : Prop :=
  escpos.shown {} (bytesOf insist ops) = escpos.shown {} (bytesOf perform ops)

instance (ops : List (Op EncoderOp)) : Decidable (Invisible ops) :=
  inferInstanceAs (Decidable (_ = _))

/-- `ESC`, `GS` and `DLE` begin commands. -/
def begins (c : UInt8) : Bool := c = 0x1B || c = 0x1D || c = 0x10

/-- The text has no byte that begins a command, and the rows of an image fit their field. -/
def Permitted : EncoderOp → Prop
  | .text utf8 | .line utf8 => ∀ c ∈ utf8, begins c = false
  | op => Narrow op

/-- The printer shows what the encoder remembers. -/
structure Agrees (s : Style) (look : Look) : Prop where
  alignment : look.alignment = s.alignment.toByte
  bold : look.bold = if s.boldOn then 1 else 0
  underlined : look.underlined = s.underlined
  size : look.size = ((s.sizeWidth - 1) <<< 4) ||| (s.sizeHeight - 1)
  codePage : look.codePage = codePageByte s.codePage

section Escpos
variable {look : Look}

theorem steady_text {c : UInt8} (h : begins c = false) : Steady escpos look (.text c) := by
  simp only [begins, Bool.or_eq_false_iff, decide_eq_false_iff_not] at h
  obtain ⟨⟨hesc, hgs⟩, hdle⟩ := h
  refine ⟨fun rest => ?_, rfl⟩
  show arity c rest = none
  rw [arity, if_neg fun hb => hgs hb.1, Paper.arguments, if_neg hesc, if_neg hgs, if_neg hdle]
  rfl

theorem steady_textPuts {codePage : CodePage} {utf8 : Bytes} (h : ∀ c ∈ utf8, begins c = false) :
    ∀ put ∈ textPuts (encoded codePage utf8), Steady escpos look put := by
  intro put hput
  obtain ⟨c, hc, rfl⟩ := List.mem_map.mp hput
  refine steady_text ?_
  rcases mem_encoded hc with hmem | hhigh | rfl
  · exact h c hmem
  · by_contra hb
    simp only [begins, Bool.not_eq_false, Bool.or_eq_true, decide_eq_true_eq] at hb
    rcases hb with (rfl | rfl) | rfl
    all_goals exact absurd hhigh (by decide)
  · rfl

theorem steady_command {first : UInt8} {args : Bytes}
    (harity : ∀ rest, arity first (args ++ rest) = some args.length)
    (hobey : obey look (first :: args) = look) : Steady escpos look (.command (first :: args)) :=
  ⟨⟨first, args, rfl, harity⟩, hobey⟩

theorem steady_lineFeed : ∀ put ∈ [(.text 0x0A : Put)], Steady escpos look put := by
  intro put hput
  rw [List.mem_singleton.mp hput]
  exact steady_text rfl

theorem steady_dotPuts (dots : UInt16) : ∀ put ∈ dotPuts dots, Steady escpos look put := by
  intro put hput
  obtain ⟨n, -, rfl⟩ := List.mem_map.mp hput
  exact steady_command (fun _ => rfl) rfl

theorem steady_cut (mode : CutMode) : Steady escpos look (.command (cutBytes mode)) := by
  cases mode with
  | partialCut => exact steady_command (fun _ => rfl) rfl
  | full => exact steady_command (fun _ => rfl) rfl

theorem steady_cutWithFeed (mode : CutMode) (units : UInt8) :
    Steady escpos look (.command (cutWithFeedBytes mode units)) := by
  cases mode with
  | partialCut => exact steady_command (fun _ => rfl) rfl
  | full => exact steady_command (fun _ => rfl) rfl

/-- A `GS (` command of the length that it states. -/
theorem steady_extended {third pl ph : UInt8} {data : Bytes} (hlen : data.length = le16 pl ph)
    (hne : data ≠ []) : Steady escpos look (.command (0x1D :: 0x28 :: third :: pl :: ph :: data)) := by
  obtain ⟨d, data, rfl⟩ := List.exists_cons_of_ne_nil hne
  refine steady_command (fun rest => ?_) rfl
  show some (4 + le16 pl ph) = _
  rw [← hlen]
  congr 1
  simp only [List.length_cons]
  omega

theorem steady_raster {scale : UInt8} {w rows : ℕ} {image : Bytes} (hw : w < 65536)
    (hrows : rows < 65536) (hlen : image.length = w * rows) :
    Steady escpos look (.command ([0x1D, 0x76, 0x30, scale] ++ lowHigh w ++ lowHigh rows ++ image)) := by
  refine @steady_command _ _ ([0x76, 0x30, scale] ++ lowHigh w ++ lowHigh rows ++ image)
    (fun rest => ?_) rfl
  show some (7 + le16 (UInt8.ofNat w) (UInt8.ofNat (w / 256)) *
    le16 (UInt8.ofNat rows) (UInt8.ofNat (rows / 256))) = _
  rw [le16_lowHigh, le16_lowHigh, Nat.mod_eq_of_lt hw, Nat.mod_eq_of_lt hrows, ← hlen]
  congr 1
  simp only [List.length_append, List.length_cons, lowHigh, List.length_nil]

theorem steady_rasterPuts {scale : UInt8} {w band : ℕ} (hw : w < 65536) :
    ∀ {height : ℕ} {data : Bytes}, height ≤ kMaxRasterRows → data.length = w * height →
      ∀ put ∈ rasterPuts scale w band height data, Steady escpos look put
  | 0, data, _, _ => by
    rw [rasterPuts]
    exact fun put hput => absurd hput List.not_mem_nil
  | height + 1, data, hmax, hlen => by
    rw [rasterPuts]
    obtain ⟨rows, hrows⟩ : ∃ rows, rows = min (max band 1) (height + 1) := ⟨_, rfl⟩
    rw [← hrows]
    have hle : rows ≤ height + 1 := by omega
    have htake : (data.take (w * rows)).length = w * rows := by
      rw [List.length_take, hlen]
      exact Nat.min_eq_left (Nat.mul_le_mul_left w hle)
    have hdrop : (data.drop (w * rows)).length = w * (height + 1 - rows) := by
      rw [List.length_drop, hlen, Nat.mul_sub]
    have hsmall : rows < 65536 := by
      unfold kMaxRasterRows at hmax
      omega
    intro put hput
    rcases List.mem_cons.mp hput with rfl | hput
    · exact steady_raster hw hsmall htake
    · exact steady_rasterPuts hw (by omega) hdrop put hput

theorem steady_qrPuts {data : Bytes} (size ec model : UInt8) (h : data.length ≤ 0xFFFF - 3) :
    ∀ put ∈ qrPuts data size ec model, Steady escpos look put := by
  have hstore : Steady escpos look (.command ([0x1D, 0x28, 0x6B] ++ lowHigh (data.length + 3) ++
      [0x31, 0x50, 0x30] ++ data)) := by
    refine @steady_extended _ _ _ _ (0x31 :: 0x50 :: 0x30 :: data) ?_ (List.cons_ne_nil _ _)
    rw [le16_lowHigh]
    simp only [List.length_cons]
    omega
  intro put hput
  simp only [qrPuts, List.mem_cons, List.not_mem_nil, or_false] at hput
  rcases hput with rfl | rfl | rfl | rfl | rfl
  · exact steady_extended rfl (List.cons_ne_nil _ _)
  · exact steady_extended rfl (List.cons_ne_nil _ _)
  · exact steady_extended rfl (List.cons_ne_nil _ _)
  · exact hstore
  · exact steady_extended rfl (List.cons_ne_nil _ _)

theorem steady_processId {token marker : Bytes} (h : processIdMarker token = some marker) :
    Steady escpos look (.command marker) := by
  unfold processIdMarker at h
  split_ifs at h with hvalid
  cases h
  have hlen : token.length = 4 := by
    unfold isValidProcessIdToken at hvalid
    rw [Bool.and_eq_true, decide_eq_true_eq] at hvalid
    exact hvalid.1
  refine @steady_extended _ _ _ _ (0x30 :: 0x30 :: token) ?_ (List.cons_ne_nil _ _)
  rw [List.length_cons, List.length_cons, hlen]
  rfl

/-! #### One operation -/

/-- An operation that selects no style puts what leaves the look, and forgets nothing. -/
structure Still (s s' : Style) (look : Look) (puts : List Put) : Prop where
  steady : ∀ put ∈ puts, Steady escpos look put
  agrees : Agrees s look → Agrees s' look

theorem Still.elides {s s' : Style} {puts : List Put} (h : Still s s' look puts)
    (hs : Agrees s look) : escpos.Elides look (puts.map piece) (puts.map piece) ∧
      escpos.Tidy look (puts.map piece) ∧ escpos.Tidy look (puts.map piece) ∧
      Agrees s' (escpos.afterAll look (puts.map piece)) := by
  obtain ⟨htidy, hsame⟩ := tidy_of_steady h.steady
  refine ⟨.refl _ _, htidy, htidy, ?_⟩
  rw [hsame]
  exact h.agrees hs

/-- The operations that select a style, or reset it. -/
def styles : EncoderOp → Bool
  | .initPrinter | .selectCodePage _ | .align _ | .bold _ | .underline _ | .textSize _ _ => true
  | _ => false

theorem still_single {s : Style} {put : Put} (h : Steady escpos look put) :
    Still s s look [put] where
  steady p hp := by
    rw [List.mem_singleton.mp hp]
    exact h
  agrees := id

theorem still_perform {s s' : Style} {op : EncoderOp} {puts : List Put} (hop : styles op = false)
    (hpermitted : Permitted op) (h : perform s op = some (s', puts)) : Still s s' look puts := by
  cases op with
  | initPrinter | selectCodePage codePage | align alignment | bold enabled | underline dots
  | textSize width height => cases hop
  | text utf8 =>
    cases h
    exact ⟨steady_textPuts hpermitted, id⟩
  | line utf8 =>
    cases h
    refine ⟨fun put hput => ?_, id⟩
    rcases List.mem_append.mp hput with hput | hput
    · exact steady_textPuts hpermitted put hput
    · exact steady_lineFeed put hput
  | feed =>
    cases h
    exact ⟨steady_lineFeed, id⟩
  | feedLines lines =>
    cases h
    exact still_single (steady_command (fun _ => rfl) rfl)
  | feedDots dots =>
    cases h
    exact ⟨steady_dotPuts dots, id⟩
  | useCutWithFeed enabled units =>
    cases h
    exact ⟨fun put hput => absurd hput List.not_mem_nil,
      fun h => ⟨h.alignment, h.bold, h.underlined, h.size, h.codePage⟩⟩
  | cut mode =>
    cases h
    refine still_single ?_
    split_ifs
    · exact steady_cutWithFeed mode s.cutFeedUnits
    · exact steady_cut mode
  | cutWithFeed mode units =>
    cases h
    exact still_single (steady_cutWithFeed mode units)
  | kickCashDrawer pin onTime offTime =>
    rw [perform] at h
    split_ifs at h
    cases h
    exact still_single (steady_command (fun _ => rfl) rfl)
  | asb enabled mask =>
    cases h
    exact still_single (steady_command (fun _ => rfl) rfl)
  | processId token =>
    obtain ⟨marker, hmarker, he⟩ := Option.map_eq_some_iff.mp h
    cases he
    exact still_single (steady_processId hmarker)
  | realtimeStatus kind =>
    cases h
    exact still_single (steady_command (fun _ => rfl) rfl)
  | queuedPaperStatus =>
    cases h
    exact still_single (steady_command (fun _ => rfl) rfl)
  | rasterPacked data widthDots heightDots scale maxRowsPerBand =>
    rw [perform] at h
    split_ifs at h with hzero hlarge hlen
    cases h
    have hrows : bytesPerRow widthDots < 65536 := by
      unfold kMaxRasterBytesPerRow at hlarge
      omega
    exact ⟨steady_rasterPuts hrows (by omega) (Decidable.not_not.mp hlen), id⟩
  | rasterGrayscale raster targetWidthDots scale =>
    obtain ⟨packed, hpacked, he⟩ := Option.map_eq_some_iff.mp h
    cases he
    obtain ⟨hrow, hpos, hmax, hlen⟩ := packed_shape (ok_of_toOption hpacked)
    have hnarrow : bytesPerRow targetWidthDots < 65536 := hpermitted (by rw [hpacked]; rfl)
    rw [← hrow] at hnarrow
    exact ⟨steady_rasterPuts hnarrow hmax hlen, id⟩
  | qr data size ec model =>
    rw [perform] at h
    split_ifs at h with hsize hlen
    cases h
    exact ⟨steady_qrPuts size ec.toByte model.toByte (by omega), id⟩

/-- A style command of three bytes. -/
theorem select {s' : Style} {same : Bool} {first second n : UInt8} (look' : Look)
    (harity : ∀ rest, arity first ([second, n] ++ rest) = some 2)
    (hobey : obey look [first, second, n] = look') (hsame : same = true → look' = look)
    (hagrees : Agrees s' look') : ∃ t more less,
      some (s', [(.command [first, second, n] : Put)]) = some (t, more) ∧
        some (s', changed same [first, second, n]) = some (t, less) ∧
        escpos.Elides look (more.map piece) (less.map piece) ∧
        escpos.Tidy look (more.map piece) ∧ escpos.Tidy look (less.map piece) ∧
        Agrees t (escpos.afterAll look (more.map piece)) := by
  have htidy : escpos.TidyPiece look (.command [first, second, n]) :=
    ⟨first, [second, n], rfl, harity⟩
  refine ⟨s', _, _, rfl, rfl, ?_, ⟨htidy, trivial⟩, tidy_changed htidy, ?_⟩
  · exact elides_changed fun h => hobey.trans (hsame h)
  · show Agrees s' (obey look [first, second, n])
    rw [hobey]
    exact hagrees

end Escpos

theorem simulates_escpos : Simulates escpos {} insist perform Agrees Permitted where
  init := ⟨rfl, rfl, rfl, rfl, rfl⟩
  step := by
    intro s look op hop hs
    by_cases hstyles : styles op = false
    · have hinsist : insist s op = perform s op := by
        cases op <;> first | rfl | cases hstyles
      rw [hinsist]
      cases hperform : perform s op with
      | none => exact .inl ⟨rfl, rfl⟩
      | some r =>
        obtain ⟨s', puts⟩ := r
        have hstill : Still s s' look puts := still_perform hstyles hop hperform
        exact .inr ⟨s', puts, puts, rfl, rfl, hstill.elides hs⟩
    · cases op with
      | initPrinter =>
        have htidy : escpos.TidyPiece look (.command [0x1B, 0x40]) := ⟨0x1B, [0x40], rfl, fun _ => rfl⟩
        have hsize : (0 : UInt8) = (((1 : UInt8) - 1) <<< 4) ||| ((1 : UInt8) - 1) := rfl
        exact .inr ⟨_, _, _, rfl, rfl, .refl _ _, ⟨htidy, trivial⟩, ⟨htidy, trivial⟩,
          ⟨rfl, rfl, rfl, hsize, rfl⟩⟩
      | selectCodePage codePage =>
        refine .inr (select { look with codePage := codePageByte codePage } (fun _ => rfl) rfl ?_
          ⟨hs.alignment, hs.bold, hs.underlined, hs.size, rfl⟩)
        intro hsame
        rw [← of_decide_eq_true hsame, ← hs.codePage]
      | align alignment =>
        refine .inr (select { look with alignment := alignment.toByte } (fun _ => rfl) rfl ?_
          ⟨rfl, hs.bold, hs.underlined, hs.size, hs.codePage⟩)
        intro hsame
        rw [← of_decide_eq_true hsame, ← hs.alignment]
      | bold enabled =>
        refine .inr (select { look with bold := if enabled then 1 else 0 } (fun _ => rfl) rfl ?_
          ⟨hs.alignment, rfl, hs.underlined, hs.size, hs.codePage⟩)
        intro hsame
        rw [← of_decide_eq_true hsame, ← hs.bold]
      | underline dots =>
        by_cases hthick : 2 < dots
        · exact .inl ⟨if_pos hthick, if_pos hthick⟩
        · rw [insist, perform, if_neg hthick, if_neg hthick]
          refine .inr (select { look with underlined := dots } (fun _ => rfl) rfl ?_
            ⟨hs.alignment, hs.bold, rfl, hs.size, hs.codePage⟩)
          intro hsame
          rw [← of_decide_eq_true hsame, ← hs.underlined]
      | textSize width height =>
        by_cases hrange : width < 1 ∨ 8 < width ∨ height < 1 ∨ 8 < height
        · exact .inl ⟨if_pos hrange, if_pos hrange⟩
        · rw [insist, perform, if_neg hrange, if_neg hrange]
          refine .inr (select { look with size := ((width - 1) <<< 4) ||| (height - 1) }
            (fun _ => rfl) rfl ?_ ⟨hs.alignment, hs.bold, hs.underlined, rfl, hs.codePage⟩)
          intro hsame
          rw [Bool.and_eq_true, decide_eq_true_eq, decide_eq_true_eq] at hsame
          rw [← hsame.1, ← hsame.2, ← hs.size]
      | _ => exact absurd rfl hstyles

/-! ### The Star printer -/

open PrinterDriver.Core.StarOps (StarOp StarStyle alignBytes boldBytes underlineBytes rowPuts imagePuts
  starBytesPerRow)

/-- In raster mode the printer takes rows. -/
structure StarLook where
  look : Look := {}
  raster : Bool := false
  deriving DecidableEq, Repr

/-- `ESC GS` is followed by two more bytes, where it is the command that aligns. -/
def starEscArity : Bytes → Option ℕ
  | [] => some 0
  | second :: args =>
    if second = 0x40 ∨ second = 0x45 ∨ second = 0x46 then some 1
    else if second = 0x2D ∨ second = 0x61 ∨ second = 0x4A ∨ second = 0x64 then some 2
    else if second = 0x2A then some 3
    else if second = 0x1D ∧ args.head? = some 0x61 then some 3
    else none

/-- A row has its length behind the letter. -/
def rowArity : Bytes → ℕ
  | n1 :: n2 :: _ => 2 + le16 n1 n2
  | _ => 2

def starArity (s : StarLook) (first : UInt8) (rest : Bytes) : Option ℕ :=
  if first = 0x1B then starEscArity rest
  else if s.raster ∧ first = 0x62 then some (rowArity rest)
  else none

/-- `ESC @`, `ESC E`, `ESC F`, `ESC -`, `ESC GS a` and the two ends of raster mode. -/
def starObey (s : StarLook) (command : Bytes) : StarLook :=
  if command = [0x1B, 0x40] then {}
  else if command = [0x1B, 0x45] then { s with look := { s.look with bold := 1 } }
  else if command = [0x1B, 0x46] then { s with look := { s.look with bold := 0 } }
  else if command = [0x1B, 0x2A, 0x72, 0x41] then { s with raster := true }
  else if command = [0x1B, 0x2A, 0x72, 0x42] then { s with raster := false }
  else match command with
    | [first, second, n] =>
      if first = 0x1B ∧ second = 0x2D then { s with look := { s.look with underlined := n } } else s
    | [first, second, third, n] =>
      if first = 0x1B ∧ second = 0x1D ∧ third = 0x61 then
        { s with look := { s.look with alignment := n } }
      else s
    | _ => s

def star : Machine UInt8 StarLook where
  arity := starArity
  obey := starObey

/-- As `StarOps.perform`, but every style command is sent. -/
def starInsist (s : StarStyle) : StarOp → Option (StarStyle × List Put)
  | .align alignment => some ({ s with alignment := alignment }, [.command (alignBytes alignment)])
  | .bold enabled => some ({ s with boldOn := enabled }, [.command (boldBytes enabled)])
  | .underline enabled => some ({ s with underlineOn := enabled }, [.command (underlineBytes enabled)])
  | op => StarOps.perform s op

instance : Inhabited StarStyle := ⟨{}⟩

/-- A new encoder's bytes behind the operations, of which none empties the buffer. -/
def StarInvisible (ops : List StarOp) : Prop :=
  star.shown {} (bytesOf starInsist (ops.map .act)) =
    star.shown {} (bytesOf StarOps.perform (ops.map .act))

/-- The rows of an image, if any are put, fit the field of their length. -/
def Fits (data : Bytes) (widthDots heightDots : ℕ) : Prop :=
  imagePuts data widthDots heightDots ≠ [] → starBytesPerRow widthDots < 65536

/-- The text has no `ESC`, and the rows of an image fit their field. -/
def StarPermitted : StarOp → Prop
  | .text utf8 | .line utf8 => 0x1B ∉ utf8
  | .rasterPacked data widthDots heightDots => Fits data widthDots heightDots
  | .rasterGrayscale raster targetWidthDots => ∀ packed,
      packGrayscale raster targetWidthDots = .ok packed →
        Fits packed.data packed.widthDots packed.heightDots
  | _ => True

/-- The printer shows what the encoder remembers, and is in no raster. -/
structure StarAgrees (s : StarStyle) (t : StarLook) : Prop where
  alignment : t.look.alignment = s.alignment.toByte
  bold : t.look.bold = if s.boldOn then 1 else 0
  underlined : t.look.underlined = if s.underlineOn then 1 else 0
  raster : t.raster = false

section Star
variable {t : StarLook}

theorem star_steady_own {c : UInt8} (hraster : t.raster = false) (hc : c ≠ 0x1B) :
    Steady star t (.text c) := by
  refine ⟨fun rest => ?_, rfl⟩
  show starArity t c rest = none
  rw [starArity, if_neg hc, if_neg (by simp [hraster])]

theorem star_steady_textPuts {utf8 : Bytes} (hraster : t.raster = false) (h : 0x1B ∉ utf8) :
    ∀ put ∈ textPuts (transliterateAscii utf8), Steady star t put := by
  intro put hput
  obtain ⟨c, hc, rfl⟩ := List.mem_map.mp hput
  obtain ⟨d, hd, rfl⟩ := List.mem_map.mp hc
  refine star_steady_own hraster ?_
  split_ifs
  · rintro rfl
    exact h hd
  · decide

theorem star_steady_lineFeed (hraster : t.raster = false) :
    ∀ put ∈ [(.text 0x0A : Put)], Steady star t put := by
  intro put hput
  rw [List.mem_singleton.mp hput]
  exact star_steady_own hraster (by decide)

/-- A command that `starObey` does not know. -/
theorem star_steady_command {first : UInt8} {args : Bytes}
    (harity : ∀ rest, starArity t first (args ++ rest) = some args.length)
    (hobey : starObey t (first :: args) = t) : Steady star t (.command (first :: args)) :=
  ⟨⟨first, args, rfl, harity⟩, hobey⟩

theorem star_steady_dotPuts (dots : UInt16) : ∀ put ∈ dotPuts dots, Steady star t put := by
  intro put hput
  obtain ⟨n, -, rfl⟩ := List.mem_map.mp hput
  exact star_steady_command (fun _ => rfl) rfl

theorem starObey_of_head {first : UInt8} {args : Bytes} (h : first ≠ 0x1B) :
    starObey t (first :: args) = t := by
  have hne : ∀ more : Bytes, first :: args ≠ 0x1B :: more := fun more he => h (List.cons.inj he).1
  unfold starObey
  rw [if_neg (hne _), if_neg (hne _), if_neg (hne _), if_neg (hne _), if_neg (hne _)]
  split
  · next heq =>
    rw [if_neg fun hb => h ((List.cons.inj heq).1.trans hb.1)]
  · next heq =>
    rw [if_neg fun hb => h ((List.cons.inj heq).1.trans hb.1)]
  · rfl

/-- Rows in raster mode. -/
theorem star_steady_rowPuts (hraster : t.raster = true) {w : ℕ} (hw : w < 65536) :
    ∀ {rows : ℕ} {data : Bytes}, w * rows ≤ data.length →
      ∀ put ∈ rowPuts w rows data, Steady star t put
  | 0, _, _, put, hput => absurd hput List.not_mem_nil
  | rows + 1, data, hlen, put, hput => by
    have hlen : w * rows + w ≤ data.length := hlen
    rcases List.mem_cons.mp hput with rfl | hput
    · refine @star_steady_command _ _ (lowHigh w ++ data.take w) (fun rest => ?_)
        (starObey_of_head (by decide))
      have hrow : (0x62 : UInt8) ≠ 0x1B := by decide
      rw [starArity, if_neg hrow, if_pos ⟨hraster, rfl⟩]
      show some (2 + le16 (UInt8.ofNat w) (UInt8.ofNat (w / 256))) = _
      rw [le16_lowHigh, Nat.mod_eq_of_lt hw, List.length_append, List.length_take]
      simp only [lowHigh, List.length_cons, List.length_nil]
      congr 1
      omega
    · refine star_steady_rowPuts hraster hw ?_ put hput
      rw [List.length_drop]
      omega

/-- An image opens raster mode and leaves it. -/
theorem star_imagePuts (hraster : t.raster = false) {data : Bytes} {widthDots heightDots : ℕ}
    (hfits : Fits data widthDots heightDots) :
    star.Tidy t ((imagePuts data widthDots heightDots).map piece) ∧
      star.afterAll t ((imagePuts data widthDots heightDots).map piece) = t := by
  by_cases hnone : widthDots = 0 ∨ heightDots = 0 ∨
      data.length < starBytesPerRow widthDots * heightDots
  · rw [imagePuts, if_pos hnone]
    exact ⟨trivial, rfl⟩
  · have hsome : imagePuts data widthDots heightDots = .command [0x1B, 0x2A, 0x72, 0x41] ::
        (rowPuts (starBytesPerRow widthDots) heightDots data ++ [.command [0x1B, 0x2A, 0x72, 0x42]]) :=
      if_neg hnone
    have hw : starBytesPerRow widthDots < 65536 := hfits (by
      rw [hsome]
      exact List.cons_ne_nil _ _)
    have hlen : starBytesPerRow widthDots * heightDots ≤ data.length := by
      rw [not_or, not_or] at hnone
      omega
    have hrows : ∀ put ∈ rowPuts (starBytesPerRow widthDots) heightDots data,
        Steady star { t with raster := true } put := star_steady_rowPuts rfl hw hlen
    obtain ⟨htidy, hsame⟩ := tidy_of_steady hrows
    have hopen : star.TidyPiece t (.command [0x1B, 0x2A, 0x72, 0x41]) :=
      ⟨0x1B, [0x2A, 0x72, 0x41], rfl, fun _ => rfl⟩
    have hquit : star.TidyPiece { t with raster := true } (.command [0x1B, 0x2A, 0x72, 0x42]) :=
      ⟨0x1B, [0x2A, 0x72, 0x42], rfl, fun _ => rfl⟩
    rw [hsome, List.map_cons, List.map_append]
    refine ⟨⟨hopen, Machine.tidy_append.mpr ⟨htidy, ?_⟩⟩, ?_⟩
    · have hstate : star.afterAll (star.after t (piece (.command [0x1B, 0x2A, 0x72, 0x41])))
          ((rowPuts (starBytesPerRow widthDots) heightDots data).map piece) =
            { t with raster := true } := hsame
      rw [hstate]
      exact ⟨hquit, trivial⟩
    · show star.afterAll { t with raster := true }
        ((rowPuts (starBytesPerRow widthDots) heightDots data).map piece ++ _) = t
      rw [Machine.afterAll_append, hsame]
      show ({ t with raster := false } : StarLook) = t
      rw [← hraster]

/-- The operations that select a style, or reset it. -/
def starStyles : StarOp → Bool
  | .initPrinter | .align _ | .bold _ | .underline _ => true
  | _ => false

/-- An operation that selects no style puts what leaves the look. -/
theorem star_still {s s' : StarStyle} {op : StarOp} {puts : List Put} (hraster : t.raster = false)
    (hop : starStyles op = false) (hpermitted : StarPermitted op)
    (h : StarOps.perform s op = some (s', puts)) : s' = s ∧ star.Tidy t (puts.map piece) ∧
      star.afterAll t (puts.map piece) = t := by
  cases op with
  | initPrinter | align alignment | bold enabled | underline enabled => cases hop
  | text utf8 =>
    cases h
    exact ⟨rfl, tidy_of_steady (star_steady_textPuts hraster hpermitted)⟩
  | line utf8 =>
    cases h
    refine ⟨rfl, tidy_of_steady fun put hput => ?_⟩
    rcases List.mem_append.mp hput with hput | hput
    · exact star_steady_textPuts hraster hpermitted put hput
    · exact star_steady_lineFeed hraster put hput
  | feed =>
    cases h
    exact ⟨rfl, tidy_of_steady (star_steady_lineFeed hraster)⟩
  | feedLines lines =>
    cases h
    have hfeed : star.TidyPiece t (.command [0x1B, 0x61, lines]) :=
      ⟨0x1B, [0x61, lines], rfl, fun _ => rfl⟩
    refine ⟨rfl, tidy_changed hfeed, ?_⟩
    unfold changed
    split_ifs
    · rfl
    · rfl
  | feedDots dots =>
    cases h
    exact ⟨rfl, tidy_of_steady (star_steady_dotPuts dots)⟩
  | cut mode =>
    cases h
    refine ⟨rfl, tidy_of_steady fun put hput => ?_⟩
    rw [List.mem_singleton.mp hput]
    exact star_steady_command (fun _ => rfl) rfl
  | rasterPacked data widthDots heightDots =>
    cases h
    exact ⟨rfl, star_imagePuts hraster hpermitted⟩
  | rasterGrayscale raster targetWidthDots =>
    rw [StarOps.perform] at h
    split_ifs at h
    · cases h
      exact ⟨rfl, trivial, rfl⟩
    · obtain ⟨packed, hpacked, he⟩ := Option.map_eq_some_iff.mp h
      cases he
      exact ⟨rfl, star_imagePuts hraster (hpermitted packed (ok_of_toOption hpacked))⟩

/-- A style command, sent or left out. -/
theorem star_select {s' : StarStyle} {same : Bool} {bytes : Bytes} (t' : StarLook)
    (htidy : star.TidyPiece t (.command bytes)) (hobey : starObey t bytes = t')
    (hsame : same = true → t' = t) (hagrees : StarAgrees s' t') : ∃ u more less,
      some (s', [(.command bytes : Put)]) = some (u, more) ∧
        some (s', changed same bytes) = some (u, less) ∧
        star.Elides t (more.map piece) (less.map piece) ∧
        star.Tidy t (more.map piece) ∧ star.Tidy t (less.map piece) ∧
        StarAgrees u (star.afterAll t (more.map piece)) := by
  refine ⟨s', _, _, rfl, rfl, ?_, ⟨htidy, trivial⟩, tidy_changed htidy, ?_⟩
  · exact elides_changed fun h => hobey.trans (hsame h)
  · show StarAgrees s' (starObey t bytes)
    rw [hobey]
    exact hagrees

end Star

theorem simulates_star :
    Simulates star {} starInsist StarOps.perform StarAgrees StarPermitted where
  init := ⟨rfl, rfl, rfl, rfl⟩
  step := by
    intro s t op hop hs
    by_cases hstyles : starStyles op = false
    · have hinsist : starInsist s op = StarOps.perform s op := by
        cases op <;> first | rfl | cases hstyles
      rw [hinsist]
      cases hperform : StarOps.perform s op with
      | none => exact .inl ⟨rfl, rfl⟩
      | some r =>
        obtain ⟨s', puts⟩ := r
        obtain ⟨rfl, htidy, hsame⟩ := star_still hs.raster hstyles hop hperform
        refine .inr ⟨s', puts, puts, rfl, rfl, .refl _ _, htidy, htidy, ?_⟩
        rw [hsame]
        exact hs
    · cases op with
      | initPrinter =>
        have htidy : star.TidyPiece t (.command [0x1B, 0x40]) := ⟨0x1B, [0x40], rfl, fun _ => rfl⟩
        exact .inr ⟨_, _, _, rfl, rfl, .refl _ _, ⟨htidy, trivial⟩, ⟨htidy, trivial⟩,
          ⟨rfl, rfl, rfl, rfl⟩⟩
      | align alignment =>
        refine .inr (star_select { t with look := { t.look with alignment := alignment.toByte } }
          ⟨0x1B, [0x1D, 0x61, alignment.toByte], rfl, fun _ => rfl⟩ rfl ?_
          ⟨rfl, hs.bold, hs.underlined, hs.raster⟩)
        intro hsame
        rw [of_decide_eq_true hsame, ← hs.alignment]
      | bold enabled =>
        refine .inr (star_select { t with look := { t.look with bold := if enabled then 1 else 0 } }
          ?_ ?_ ?_ ⟨hs.alignment, rfl, hs.underlined, hs.raster⟩)
        · cases enabled with
          | true => exact ⟨0x1B, [0x45], rfl, fun _ => rfl⟩
          | false => exact ⟨0x1B, [0x46], rfl, fun _ => rfl⟩
        · cases enabled with
          | true => rfl
          | false => rfl
        · intro hsame
          rw [of_decide_eq_true hsame, ← hs.bold]
      | underline enabled =>
        refine .inr (star_select
          { t with look := { t.look with underlined := if enabled then 1 else 0 } }
          ⟨0x1B, [0x2D, if enabled then 1 else 0], rfl, fun _ => rfl⟩ rfl ?_
          ⟨hs.alignment, hs.bold, rfl, hs.raster⟩)
        intro hsame
        rw [of_decide_eq_true hsame, ← hs.underlined]
      | _ => exact absurd rfl hstyles

/-- **What either encoder leaves out is not missed**, where no text begins a command and every image fits
its fields. -/
theorem invisible_elision : (∀ ops : List (Op EncoderOp), (∀ op, .act op ∈ ops → Permitted op) →
      Invisible ops) ∧
    ∀ ops : List StarOp, (∀ op ∈ ops, StarPermitted op) → StarInvisible ops := by
  constructor
  · exact fun ops h => simulates_escpos.shown_eq h
  · intro ops h
    refine simulates_star.shown_eq fun op hop => h op ?_
    obtain ⟨op', hop', heq⟩ := List.mem_map.mp hop
    cases heq
    exact hop'

theorem invisible_elision_bold : Invisible [.act (.bold true), .act (.text [0x41])] ∧
    StarInvisible [.bold true, .text [0x41]] := by
  have hpermitted : ∀ op, Op.act op ∈ [Op.act (EncoderOp.bold true), .act (.text [0x41])] →
      Permitted op := by
    intro op hop
    simp only [List.mem_cons, List.not_mem_nil, or_false, Op.act.injEq] at hop
    rcases hop with rfl | rfl
    · trivial
    · intro c hc
      rw [List.mem_singleton.mp hc]
      rfl
  have hstar : ∀ op ∈ [StarOp.bold true, .text [0x41]], StarPermitted op := by
    intro op hop
    simp only [List.mem_cons, List.not_mem_nil, or_false] at hop
    rcases hop with rfl | rfl
    · trivial
    · show (0x1B : UInt8) ∉ [(0x41 : UInt8)]
      decide
  exact ⟨invisible_elision.1 _ hpermitted, invisible_elision.2 _ hstar⟩

/-- Bold, and a text that resets the printer, which the encoder does not see. -/
def resettingText : List (Op EncoderOp) :=
  [.act (.bold true), .act (.text [0x1B, 0x40]), .act (.bold true), .act (.text [0x41])]

/-- **A text with a command in it makes the printer forget what the encoder remembers.** -/
theorem not_invisible_resettingText : ¬∀ ops : List (Op EncoderOp), Invisible ops := fun h =>
  absurd (h resettingText) (by decide)

end PrinterDriver.Core.StyleElision
