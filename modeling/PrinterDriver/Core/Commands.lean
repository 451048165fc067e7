import PrinterDriver.Core.Transcode

/-! # The commands of a document

The ESC/POS encoder fills its buffer put by put: a byte of text, or a command with its arguments and
its payload. `translation` is what a command stands for in Star Line Mode. The transcoder does not see
where a put ends; `Respects` says that it comes out right all the same, and `respects_iff` when. -/

namespace PrinterDriver.Core.Commands

open PrinterDriver.Core.Types PrinterDriver.Core.Encoder PrinterDriver.Core.CodePage
  PrinterDriver.Core.Transcode

inductive Put where
  | text (c : UInt8)
  | command (bytes : Bytes)
  deriving DecidableEq, Repr

namespace Put

def bytes : Put → Bytes
  | text c => [c]
  | command bytes => bytes

end Put

def spelled (puts : List Put) : Bytes := puts.flatMap Put.bytes

@[simp] theorem spelled_nil : spelled [] = [] := rfl

@[simp] theorem spelled_cons (put : Put) (puts : List Put) :
    spelled (put :: puts) = put.bytes ++ spelled puts := List.flatMap_cons

@[simp] theorem spelled_append (puts more : List Put) :
    spelled (puts ++ more) = spelled puts ++ spelled more := List.flatMap_append

/-! ### What a command stands for -/

/-- Star bytes, or a note on what is missing. -/
structure Translation where
  star : Bytes := []
  note : Option Bytes := none
  deriving DecidableEq, Repr

def dropped (note : Bytes) : Translation := { note := some note }

/-- A command of one operand. -/
def withOperand (f : UInt8 → Translation) : Bytes → Option Translation
  | [n] => some (f n)
  | _ => none

/-- What begins with `ESC`. -/
def escTranslation (second : UInt8) (args : Bytes) : Option Translation :=
  if second = 0x40 then if args = [] then some { star := [0x1B, 0x40] } else none
  else if second = 0x74 then
    withOperand (fun _ => dropped
      (str "code page selection (ESC t): Star text is transcoded as 7-bit ASCII")) args
  else if second = 0x61 then withOperand (fun n => { star := [0x1B, 0x1D, 0x61, n] }) args
  else if second = 0x45 then
    withOperand (fun n => { star := [0x1B, if n ≠ 0 then 0x45 else 0x46] }) args
  else if second = 0x2D then
    withOperand (fun n => { star := [0x1B, 0x2D, if n ≠ 0 then 0x01 else 0x00] }) args
  else if second = 0x64 then withOperand (fun n => { star := [0x1B, 0x61, n] }) args
  else if second = 0x4A then withOperand (fun n => { star := [0x1B, 0x4A, n] }) args
  else if second = 0x70 then
    if args.length = 3 then
      some (dropped (str ("cash drawer kick (ESC p): Star's drawer command varies by " ++
        "model and interface and is not established here")))
    else none
  else none

/-- `GS V`, with a feed or without. -/
def cutTranslation (mode : UInt8) (units : Bytes) : Option Translation :=
  if units.length = (if mode = 65 ∨ mode = 66 then 1 else 0) then
    some { star := [0x1B, 0x64, if mode = 0 ∨ mode = 48 ∨ mode = 65 then 0x02 else 0x03] }
  else none

/-- `GS v 0`, of the length that its header states. -/
def rasterTranslation (rasterLineMode : Bool) : Bytes → Option Translation
  | _ :: xl :: xh :: yl :: yh :: image =>
    let bytesPerRow := le16 xl xh
    let rows := le16 yl yh
    if image.length ≠ bytesPerRow * rows then none
    else if rasterLineMode ∧ 0 < bytesPerRow ∧ 0 < rows then
      some { star := [0x1B, 0x2A, 0x72, 0x41] ++ StarEncoder.rasterRows bytesPerRow rows image ++
        [0x1B, 0x2A, 0x72, 0x42] }
    else some (dropped (str ("raster image (GS v 0): declined because this profile does " ++
      "not enable Star raster line mode")))
  | _ => none

/-- `GS (`, of the length that its header states. -/
def extendedTranslation (third : UInt8) : Bytes → Option Translation
  | pl :: ph :: operands =>
    if operands.length ≠ le16 pl ph then none
    else if third = 0x6B then
      some (dropped
        (str "QR code / 2D symbol (GS ( k): no Star symbol command is emitted by this engine"))
    else if third = 0x48 then
      some (dropped (str "ESC/POS process-ID fence (GS ( H): Star uses its own"))
    else some (dropped (str "unsupported GS ( command"))
  | _ => none

/-- What begins with `GS`. -/
def gsTranslation (rasterLineMode : Bool) (second third : UInt8) (args : Bytes) :
    Option Translation :=
  if second = 0x21 then
    if args = [] then some { star := [0x1B, 0x69, third &&& 0x07, (third >>> 4) &&& 0x07] }
    else none
  else if second = 0x56 then cutTranslation third args
  else if second = 0x76 ∧ third = 0x30 then rasterTranslation rasterLineMode args
  else if second = 0x28 then extendedTranslation third args
  else if second = 0x72 then
    if args = [] then some (dropped (str "ESC/POS queued status (GS r): Star uses its own fence"))
    else none
  else if second = 0x61 then
    if args = [] then
      some (dropped (str ("ESC/POS automatic status back (GS a): Star spells it " ++
        "ESC RS a and the job path issues it")))
    else none
  else none

/-- What a command stands for; a command that is not in the table stands for nothing. -/
def translation (rasterLineMode : Bool) : Bytes → Option Translation
  | first :: second :: args =>
    if first = 0x1B then escTranslation second args
    else
      match args with
      | third :: args =>
        if first = 0x1D then gsTranslation rasterLineMode second third args
        else if first = 0x10 ∧ second = 0x04 ∧ args = [] then
          some (dropped (str "ESC/POS realtime status (DLE EOT): not issued on Star"))
        else none
      | [] => none
  | _ => none

/-! ### What the transcoder makes of it -/

/-- One turn of the loop; a command that the document cuts off ends it. -/
def step (data : Bytes) (rasterLineMode : Bool) (t : Transcoder) : Option Transcoder := do
  let first ← data[t.index]?
  match ← command data rasterLineMode t first with
  | .done t => some t
  | .other => some (plainByte t first)
  | .cutOff => none

/-- The notes with one more, which is made once. -/
def noted (notes : List Bytes) : Option Bytes → List Bytes
  | none => notes
  | some what => if what ∈ notes then notes else notes ++ [what]

def nonAscii : Bytes :=
  str ("non-ASCII characters: the document's code page has no Star mapping here, so " ++
    "they print as '?'")

/-- From the start of a put to its end: text below 0x80 stays as it is, and a command becomes its
Star equivalent or a note. -/
def Honoured (rasterLineMode : Bool) : Put → Transcoder → Transcoder → Prop
  | .text c, t, t' => t'.index = t.index + 1 ∧
      t'.out.buffer = t.out.buffer ++ [if c < 0x80 then c else 0x3F] ∧
      t'.dropped = noted t.dropped (if c < 0x80 then none else some nonAscii)
  | .command bytes, t, t' => t'.index = t.index + bytes.length ∧
      ∃ tr, translation rasterLineMode bytes = some tr ∧
        t'.out.buffer = t.out.buffer ++ tr.star ∧ t'.dropped = noted t.dropped tr.note

/-- The turns of the loop are the puts. -/
def Walks (data : Bytes) (rasterLineMode : Bool) : List Put → Transcoder → Transcoder → Prop
  | [], t, t' => t' = t
  | put :: puts, t, t' => ∃ next, step data rasterLineMode t = some next ∧
      Honoured rasterLineMode put t next ∧ Walks data rasterLineMode puts next t'

/-- The transcoder respects the boundaries of the puts, and makes of each what it stands for. -/
def Respects (rasterLineMode : Bool) (puts : List Put) : Prop :=
  ∃ t, transcodeFromEscPos (spelled puts) rasterLineMode = some t ∧
    Walks (spelled puts) rasterLineMode puts {} t

/-! ### A command that is in the table -/

theorem out_note (t : Transcoder) (what : Bytes) : (t.note what).out = t.out := by
  unfold Transcoder.note
  split_ifs <;> rfl

theorem dropped_note (t : Transcoder) (what : Bytes) :
    (t.note what).dropped = noted t.dropped (some what) := by
  change _ = if what ∈ t.dropped then t.dropped else t.dropped ++ [what]
  unfold Transcoder.note
  split_ifs <;> rfl

/-- What a translation makes of the transcoder, over so many bytes. -/
def Turned (tr : Translation) (n : ℕ) (t t' : Transcoder) : Prop :=
  t'.index = t.index + n ∧ t'.out.buffer = t.out.buffer ++ tr.star ∧
    t'.dropped = noted t.dropped tr.note

section Turned
variable {data : Bytes} {rasterLineMode : Bool} {t : Transcoder} {tr : Translation}
  {args rest : Bytes} {second third : UInt8}

theorem turned_raw (bytes : Bytes) (n : ℕ) : Turned { star := bytes } n t ((t.raw bytes).skip n) :=
  ⟨rfl, rfl, rfl⟩

theorem turned_note (what : Bytes) (n : ℕ) : Turned (dropped what) n t ((t.note what).skip n) := by
  refine ⟨?_, ?_, ?_⟩
  · rw [index_skip, index_note]
  · rw [dropped, List.append_nil]
    exact congrArg StarEncoder.buffer (out_note t what)
  · exact dropped_note t what

/-- The command was read. -/
def Done (r : Option Reading) (tr : Translation) (n : ℕ) (t : Transcoder) : Prop :=
  ∃ t', r = some (.done t') ∧ Turned tr n t t'

theorem read_of_drop {front : Bytes} (h : data.drop t.index = front) (k : ℕ) :
    data[t.index + k]? = front[k]? := by
  rw [← h, List.getElem?_drop]

theorem has_of_drop {front : Bytes} (h : data.drop t.index = front) {n : ℕ} (hn : n ≤ front.length)
    (hpos : 0 < n) : has data t n = true := by
  have hlen := congrArg List.length h
  rw [List.length_drop] at hlen
  unfold has
  rw [decide_eq_true_eq]
  omega

theorem not_has_of_drop {front : Bytes} (h : data.drop t.index = front) {n : ℕ}
    (hn : front.length < n) : has data t n = false := by
  have hlen := congrArg List.length h
  rw [List.length_drop] at hlen
  unfold has
  rw [decide_eq_false_iff_not]
  omega

theorem slice_of_drop {front image more : Bytes} (h : data.drop t.index = front ++ image ++ more)
    (hfront : 0 < front.length) :
    slice data (t.index + front.length) image.length = some image := by
  have hlen := congrArg List.length h
  have hdrop : data.drop (t.index + front.length) = image ++ more := by
    rw [← List.drop_drop, h, List.append_assoc, List.drop_left]
  rw [List.length_drop, List.length_append, List.length_append] at hlen
  unfold slice
  rw [if_pos (by omega), hdrop, List.take_left]

theorem done_operand {f : UInt8 → Translation} {g : UInt8 → Transcoder} {first : UInt8}
    (h : data.drop t.index = first :: second :: (args ++ rest))
    (hg : ∀ n, Turned (f n) 3 t ((g n).skip 3)) (htr : withOperand f args = some tr) :
    Done (operand data t g) tr (args.length + 2) t := by
  unfold withOperand at htr
  split at htr
  · cases htr
    rename_i n
    have hhas : has data t 3 = true := has_of_drop h (by simp) (by omega)
    have hread : data[t.index + 2]? = some n := read_of_drop h 2
    refine ⟨_, ?_, hg n⟩
    unfold operand
    rw [if_pos hhas, hread]
    rfl
  · cases htr

theorem done_escCommand (h : data.drop t.index = 0x1B :: second :: (args ++ rest))
    (htr : escTranslation second args = some tr) :
    Done (escCommand data t) tr (args.length + 2) t := by
  have hsecond : data[t.index + 1]? = some second := read_of_drop h 1
  unfold escTranslation at htr
  unfold escCommand
  rw [hsecond, Option.bind_eq_bind, Option.bind_some]
  split_ifs at htr with h40 hargs h74 h61 h45 h2D h64 h4A h70 hlen
  · cases htr
    subst hargs
    have hslice : slice data t.index 2 = some [0x1B, second] := by
      have hlen := congrArg List.length h
      rw [List.length_drop, List.length_cons, List.length_cons] at hlen
      unfold slice
      rw [if_pos (by omega), h]
      rfl
    rw [if_pos h40, hslice, h40]
    exact ⟨_, rfl, turned_raw [0x1B, 0x40] 2⟩
  · rw [if_neg h40, if_pos h74]
    exact done_operand h (fun _ => turned_note _ 3) htr
  · rw [if_neg h40, if_neg h74, if_pos h61]
    exact done_operand h (fun n => turned_raw _ 3) htr
  · rw [if_neg h40, if_neg h74, if_neg h61, if_pos h45]
    exact done_operand h (fun n => turned_raw _ 3) htr
  · rw [if_neg h40, if_neg h74, if_neg h61, if_neg h45, if_pos h2D]
    exact done_operand h (fun n => turned_raw _ 3) htr
  · rw [if_neg h40, if_neg h74, if_neg h61, if_neg h45, if_neg h2D, if_pos h64]
    exact done_operand h (fun n => turned_raw _ 3) htr
  · rw [if_neg h40, if_neg h74, if_neg h61, if_neg h45, if_neg h2D, if_neg h64, if_pos h4A]
    exact done_operand h (fun n => turned_raw _ 3) htr
  · cases htr
    have hhas : has data t 5 = true :=
      has_of_drop h (by simp only [List.length_cons, List.length_append]; omega) (by omega)
    rw [if_neg h40, if_neg h74, if_neg h61, if_neg h45, if_neg h2D, if_neg h64, if_neg h4A,
      if_pos h70, if_pos hhas, hlen]
    exact ⟨_, rfl, turned_note _ 5⟩

theorem done_cutCommand (h : data.drop t.index = 0x1D :: second :: third :: (args ++ rest))
    (htr : cutTranslation third args = some tr) :
    Done (some (cutCommand data t third)) tr (args.length + 3) t := by
  unfold cutTranslation at htr
  by_cases hlen : args.length = if third = 65 ∨ third = 66 then 1 else 0
  · rw [if_pos hlen] at htr
    cases htr
    have hn : (if third = 65 ∨ third = 66 then 4 else 3) = args.length + 3 := by
      rw [hlen]
      split_ifs <;> rfl
    have hhas : has data t (args.length + 3) = true :=
      has_of_drop h (by simp only [List.length_cons, List.length_append]; omega) (by omega)
    unfold cutCommand
    dsimp only
    rw [hn, hhas]
    refine ⟨_, rfl, rfl, ?_, rfl⟩
    by_cases hfull : third = 0 ∨ third = 48 ∨ third = 65
    · simp [Transcoder.skip, StarEncoder.cut, StarEncoder.raw, hfull]
    · simp [Transcoder.skip, StarEncoder.cut, StarEncoder.raw, hfull]
  · rw [if_neg hlen] at htr
    cases htr

theorem rasterPacked_whole {e : StarEncoder} {w rows : ℕ} {image : Bytes} (hw : 0 < w)
    (hrows : 0 < rows) (hlen : image.length = w * rows) :
    e.rasterPacked ⟨w * 8, rows, w, image⟩ = e.raw ([0x1B, 0x2A, 0x72, 0x41] ++
      StarEncoder.rasterRows w rows image ++ [0x1B, 0x2A, 0x72, 0x42]) := by
  have hbytes : (w * 8 + 7) / 8 = w := by omega
  unfold StarEncoder.rasterPacked
  dsimp only
  rw [hbytes, if_neg (by rw [hlen]; omega)]

theorem done_rasterCommand (h : data.drop t.index = 0x1D :: second :: third :: (args ++ rest))
    (htr : rasterTranslation rasterLineMode args = some tr) :
    Done (rasterCommand data rasterLineMode t) tr (args.length + 3) t := by
  unfold rasterTranslation at htr
  split at htr
  · rename_i m xl xh yl yh image
    by_cases hlen : image.length = le16 xl xh * le16 yl yh
    · have h8 : has data t 8 = true :=
        has_of_drop h (by simp only [List.length_cons, List.length_append]; omega) (by omega)
      have htotal : has data t (8 + le16 xl xh * le16 yl yh) = true :=
        has_of_drop h (by simp only [List.length_cons, List.length_append]; omega) (by omega)
      have hslice : slice data (t.index + 8) (le16 xl xh * le16 yl yh) = some image := by
        have hfront : slice data (t.index + [0x1D, second, third, m, xl, xh, yl, yh].length)
            image.length = some image := slice_of_drop h (Nat.zero_lt_succ _)
        rwa [hlen] at hfront
      have hxl : data[t.index + 4]? = some xl := read_of_drop h 4
      have hxh : data[t.index + 5]? = some xh := read_of_drop h 5
      have hyl : data[t.index + 6]? = some yl := read_of_drop h 6
      have hyh : data[t.index + 7]? = some yh := read_of_drop h 7
      have hn : 8 + le16 xl xh * le16 yl yh = (m :: xl :: xh :: yl :: yh :: image).length + 3 := by
        simp only [List.length_cons]
        omega
      unfold rasterCommand
      simp only [h8, hxl, hxh, hyl, hyh, htotal, Bool.not_true, Bool.false_eq_true, if_false,
        Option.bind_eq_bind, Option.bind_some]
      simp only [hlen, ne_eq, not_true_eq_false, if_false] at htr
      by_cases hline : rasterLineMode = true ∧ 0 < le16 xl xh ∧ 0 < le16 yl yh
      · rw [if_pos hline] at htr ⊢
        cases htr
        rw [hslice]
        refine ⟨_, rfl, hn ▸ rfl, ?_, rfl⟩
        exact congrArg StarEncoder.buffer (rasterPacked_whole hline.2.1 hline.2.2 hlen)
      · rw [if_neg hline] at htr ⊢
        cases htr
        exact ⟨_, rfl, hn ▸ turned_note _ _⟩
    · simp [hlen] at htr
  · cases htr

theorem done_extendedCommand (h : data.drop t.index = 0x1D :: second :: third :: (args ++ rest))
    (htr : extendedTranslation third args = some tr) :
    Done (extendedCommand data t third) tr (args.length + 3) t := by
  unfold extendedTranslation at htr
  split at htr
  · rename_i pl ph operands
    by_cases hlen : operands.length = le16 pl ph
    · have h5 : has data t 5 = true :=
        has_of_drop h (by simp only [List.length_cons, List.length_append]; omega) (by omega)
      have htotal : has data t (5 + le16 pl ph) = true :=
        has_of_drop h (by simp only [List.length_cons, List.length_append]; omega) (by omega)
      have hpl : data[t.index + 3]? = some pl := read_of_drop h 3
      have hph : data[t.index + 4]? = some ph := read_of_drop h 4
      have hn : 5 + le16 pl ph = (pl :: ph :: operands).length + 3 := by
        simp only [List.length_cons]
        omega
      unfold extendedCommand
      simp only [h5, hpl, hph, htotal, Bool.not_true, Bool.false_eq_true, if_false,
        Option.bind_eq_bind, Option.bind_some]
      simp only [hlen, ne_eq, not_true_eq_false, if_false] at htr
      split_ifs at htr ⊢ with hk hh
      · cases htr
        exact ⟨_, rfl, hn ▸ turned_note _ _⟩
      · cases htr
        exact ⟨_, rfl, hn ▸ turned_note _ _⟩
      · cases htr
        exact ⟨_, rfl, hn ▸ turned_note _ _⟩
    · simp [hlen] at htr
  · cases htr

theorem done_gsCommand (h : data.drop t.index = 0x1D :: second :: third :: (args ++ rest))
    (htr : gsTranslation rasterLineMode second third args = some tr) :
    Done (gsCommand data rasterLineMode t) tr (args.length + 3) t := by
  have hsecond : data[t.index + 1]? = some second := read_of_drop h 1
  have hthird : data[t.index + 2]? = some third := read_of_drop h 2
  have h3 : has data t 3 = true :=
    has_of_drop h (by simp only [List.length_cons, List.length_append]; omega) (by omega)
  unfold gsTranslation at htr
  unfold gsCommand
  simp only [hsecond, hthird, h3, Bool.not_true, Bool.false_eq_true, if_false,
    Option.bind_eq_bind, Option.bind_some]
  by_cases h21 : second = 0x21
  · rw [if_pos h21] at htr ⊢
    split_ifs at htr with hargs
    cases htr
    subst hargs
    exact ⟨_, rfl, turned_raw _ 3⟩
  rw [if_neg h21] at htr ⊢
  by_cases h56 : second = 0x56
  · rw [if_pos h56] at htr ⊢
    exact done_cutCommand h htr
  rw [if_neg h56] at htr ⊢
  by_cases h76 : second = 0x76 ∧ third = 0x30
  · rw [if_pos h76] at htr ⊢
    exact done_rasterCommand h htr
  rw [if_neg h76] at htr ⊢
  by_cases h28 : second = 0x28
  · rw [if_pos h28] at htr ⊢
    exact done_extendedCommand h htr
  rw [if_neg h28] at htr ⊢
  by_cases h72 : second = 0x72
  · rw [if_pos h72] at htr ⊢
    split_ifs at htr with hargs
    cases htr
    subst hargs
    exact ⟨_, rfl, turned_note _ 3⟩
  rw [if_neg h72] at htr ⊢
  split_ifs at htr with h61 hargs
  cases htr
  subst hargs
  rw [if_pos h61]
  exact ⟨_, rfl, turned_note _ 3⟩

/-- **A command of the table is read whole**, wherever it stands. -/
theorem step_command {bytes : Bytes} (h : data.drop t.index = bytes ++ rest)
    (htr : translation rasterLineMode bytes = some tr) :
    ∃ t', step data rasterLineMode t = some t' ∧ Turned tr bytes.length t t' := by
  unfold translation at htr
  split at htr
  · rename_i first second args
    have hfirst : data[t.index]? = some first := read_of_drop h 0
    have hdone : Done (command data rasterLineMode t first) tr (args.length + 2) t := by
      have h2 : has data t 2 = true :=
        has_of_drop h (by simp only [List.length_cons, List.length_append]; omega) (by omega)
      unfold command
      by_cases hesc : first = 0x1B
      · rw [if_pos hesc] at htr
        rw [if_pos ⟨hesc, h2⟩]
        subst hesc
        exact done_escCommand h htr
      rw [if_neg hesc] at htr
      rw [if_neg fun hc => hesc hc.1]
      split at htr
      · rename_i third args
        have h3 : has data t 3 = true :=
          has_of_drop h (by simp only [List.length_cons, List.length_append]; omega) (by omega)
        by_cases hgs : first = 0x1D
        · rw [if_pos hgs] at htr
          rw [if_pos ⟨hgs, h2⟩]
          subst hgs
          exact done_gsCommand h htr
        rw [if_neg hgs] at htr
        rw [if_neg fun hc => hgs hc.1]
        split_ifs at htr with hdle
        cases htr
        obtain ⟨rfl, rfl, rfl⟩ := hdle
        have hsecond : data[t.index + 1]? = some 0x04 := read_of_drop h 1
        rw [if_pos ⟨rfl, h3⟩]
        unfold dleCommand
        simp only [hsecond, Option.bind_eq_bind, Option.bind_some]
        exact ⟨_, rfl, turned_note _ 3⟩
      · cases htr
    obtain ⟨t', ht', hturned⟩ := hdone
    refine ⟨t', ?_, hturned⟩
    unfold step
    simp only [hfirst, ht', Option.bind_eq_bind, Option.bind_some]
  · cases htr

end Turned

/-! ### Text that is no command -/

/-- The bytes begin like a command of the table; the rest of it may be missing. -/
def begins : Bytes → Bool
  | first :: second :: args =>
    if first = 0x1B then
      second = 0x40 || second ∈ [0x74, 0x61, 0x45, 0x2D, 0x64, 0x4A] && 1 ≤ args.length ||
        second = 0x70 && 3 ≤ args.length
    else if first = 0x1D then
      match args with
      | third :: operands =>
        second ∈ [0x21, 0x56, 0x72, 0x61] || second = 0x76 && third = 0x30 ||
          second = 0x28 && 2 ≤ operands.length
      | [] => false
    else first = 0x10 && second = 0x04 && 1 ≤ args.length
  | _ => false

section Text
variable {data : Bytes} {rasterLineMode : Bool} {t : Transcoder} {rest args : Bytes}
  {first second third : UInt8}

theorem has_iff_of_drop {front : Bytes} (h : data.drop t.index = front) {n : ℕ} (hpos : 0 < n) :
    has data t n = true ↔ n ≤ front.length := by
  refine ⟨fun hh => ?_, fun hn => has_of_drop h hn hpos⟩
  by_contra hn
  rw [not_has_of_drop h (Nat.lt_of_not_le hn)] at hh
  cases hh

/-- An operand is missing, or it is there. -/
theorem operand_cases (f : UInt8 → Transcoder) : operand data t f = some .other ∧
    has data t 3 = false ∨ ∃ n, operand data t f = some (.done ((f n).skip 3)) ∧
      has data t 3 = true := by
  unfold operand
  by_cases h3 : has data t 3 = true
  · obtain ⟨n, hn⟩ := read_of_has h3 (show 2 < 3 by omega)
    rw [if_pos h3, hn]
    exact .inr ⟨n, rfl, h3⟩
  · rw [if_neg h3]
    exact .inl ⟨rfl, Bool.not_eq_true _ ▸ h3⟩

/-- What reading comes to, against what begins here. -/
def Begun (t : Transcoder) (r : Option Reading) (b : Bool) : Prop :=
  r = some .other ∧ b = false ∨ r = some .cutOff ∧ b = true ∨
    ∃ t', r = some (.done t') ∧ t.index + 2 ≤ t'.index ∧ b = true

theorem begun_operand {f : UInt8 → Transcoder} (hf : ∀ n, (f n).index = t.index) :
    Begun t (operand data t f) (has data t 3) := by
  rcases operand_cases f with ⟨hr, h3⟩ | ⟨n, hr, h3⟩
  · exact .inl ⟨hr, h3⟩
  · refine .inr (.inr ⟨_, hr, ?_, h3⟩)
    rw [index_skip, hf]
    omega

theorem begun_escCommand (h : data.drop t.index = 0x1B :: second :: args) :
    Begun t (escCommand data t) (begins (0x1B :: second :: args)) := by
  have hsecond : data[t.index + 1]? = some second := read_of_drop h 1
  have h3 : has data t 3 = decide (1 ≤ args.length) :=
    Bool.eq_iff_iff.mpr ((has_iff_of_drop h (by omega)).trans (by simp))
  have h5 : has data t 5 = decide (3 ≤ args.length) :=
    Bool.eq_iff_iff.mpr ((has_iff_of_drop h (by omega)).trans (by simp))
  have hslice : slice data t.index 2 = some [0x1B, second] := by
    have hlen := congrArg List.length h
    rw [List.length_drop, List.length_cons, List.length_cons] at hlen
    unfold slice
    rw [if_pos (by omega), h]
    rfl
  unfold escCommand
  rw [hsecond, Option.bind_eq_bind, Option.bind_some]
  split_ifs with h40 h74 h61 h45 h2D h64 h4A h70 hlen
  · subst h40
    rw [hslice]
    exact .inr (.inr ⟨_, rfl, by simp, rfl⟩)
  · have hb : begins (0x1B :: second :: args) = has data t 3 := by rw [h3, h74]; simp [begins]
    exact hb ▸ begun_operand (by simp)
  · have hb : begins (0x1B :: second :: args) = has data t 3 := by rw [h3, h61]; simp [begins]
    exact hb ▸ begun_operand (by simp)
  · have hb : begins (0x1B :: second :: args) = has data t 3 := by rw [h3, h45]; simp [begins]
    exact hb ▸ begun_operand (by simp)
  · have hb : begins (0x1B :: second :: args) = has data t 3 := by rw [h3, h2D]; simp [begins]
    exact hb ▸ begun_operand (by simp)
  · have hb : begins (0x1B :: second :: args) = has data t 3 := by rw [h3, h64]; simp [begins]
    exact hb ▸ begun_operand (by simp)
  · have hb : begins (0x1B :: second :: args) = has data t 3 := by rw [h3, h4A]; simp [begins]
    exact hb ▸ begun_operand (by simp)
  · have hb : begins (0x1B :: second :: args) = has data t 5 := by rw [h5, h70]; simp [begins]
    exact .inr (.inr ⟨_, rfl, by simp, hb.trans hlen⟩)
  · have hb : begins (0x1B :: second :: args) = has data t 5 := by rw [h5, h70]; simp [begins]
    exact .inl ⟨rfl, hb.trans (Bool.not_eq_true _ ▸ hlen)⟩
  · exact .inl ⟨rfl, by simp [begins, h40, h74, h61, h45, h2D, h64, h4A, h70]⟩

theorem begun_cutCommand (mode : UInt8) : Begun t (some (cutCommand data t mode)) true := by
  unfold cutCommand
  dsimp only
  by_cases hlen : has data t (if mode = 65 ∨ mode = 66 then 4 else 3) = true
  · rw [hlen]
    exact .inr (.inr ⟨_, rfl, by simp only [index_skip]; split_ifs <;> omega, rfl⟩)
  · rw [Bool.not_eq_true] at hlen
    rw [hlen]
    exact .inr (.inl ⟨rfl, rfl⟩)

theorem begun_rasterCommand : Begun t (rasterCommand data rasterLineMode t) true := by
  unfold rasterCommand
  cases h : has data t 8 with
  | false => exact .inr (.inl ⟨rfl, rfl⟩)
  | true =>
    obtain ⟨xl, h4⟩ := read_of_has h (show 4 < 8 by omega)
    obtain ⟨xh, h5⟩ := read_of_has h (show 5 < 8 by omega)
    obtain ⟨yl, h6⟩ := read_of_has h (show 6 < 8 by omega)
    obtain ⟨yh, h7⟩ := read_of_has h (show 7 < 8 by omega)
    simp only [Bool.not_true, Bool.false_eq_true, if_false, h4, h5, h6, h7, Option.bind_eq_bind,
      Option.bind_some]
    cases htotal : has data t (8 + le16 xl xh * le16 yl yh) with
    | false => exact .inr (.inl ⟨rfl, rfl⟩)
    | true =>
      obtain ⟨image, hi⟩ := slice_of_has htotal
        (show t.index + 8 + le16 xl xh * le16 yl yh = _ from Nat.add_assoc _ _ _)
      simp only [Bool.not_true, Bool.false_eq_true, if_false, hi, Option.bind_some]
      split_ifs
      · exact .inr (.inr ⟨_, rfl, by simp only [index_skip]; omega, rfl⟩)
      · exact .inr (.inr ⟨_, rfl, by simp only [index_skip, index_note]; omega, rfl⟩)

theorem begun_extendedCommand :
    Begun t (extendedCommand data t third) (has data t 5) := by
  unfold extendedCommand
  cases h : has data t 5 with
  | false => exact .inl ⟨rfl, rfl⟩
  | true =>
    obtain ⟨pl, h3⟩ := read_of_has h (show 3 < 5 by omega)
    obtain ⟨ph, h4⟩ := read_of_has h (show 4 < 5 by omega)
    simp only [Bool.not_true, Bool.false_eq_true, if_false, h3, h4, Option.bind_eq_bind,
      Option.bind_some]
    cases has data t (5 + le16 pl ph) with
    | false => exact .inr (.inl ⟨rfl, rfl⟩)
    | true => exact .inr (.inr ⟨_, rfl, by simp only [index_skip, index_note]; omega, rfl⟩)

theorem begun_gsCommand (h : data.drop t.index = 0x1D :: second :: args) :
    Begun t (gsCommand data rasterLineMode t) (begins (0x1D :: second :: args)) := by
  have hsecond : data[t.index + 1]? = some second := read_of_drop h 1
  unfold gsCommand
  rw [hsecond, Option.bind_eq_bind, Option.bind_some]
  cases args with
  | nil =>
    have h3 : has data t 3 = false := not_has_of_drop h (by simp)
    rw [h3]
    exact .inl ⟨rfl, rfl⟩
  | cons third operands =>
    have h3 : has data t 3 = true := has_of_drop h (by simp) (by omega)
    have hthird : data[t.index + 2]? = some third := read_of_drop h 2
    have h5 : has data t 5 = decide (2 ≤ operands.length) :=
      Bool.eq_iff_iff.mpr ((has_iff_of_drop h (by omega)).trans (by simp))
    simp only [h3, hthird, Bool.not_true, Bool.false_eq_true, if_false, Option.bind_some]
    split_ifs with h21 h56 h76 h28 h72 h61
    · exact .inr (.inr ⟨_, rfl, by simp, by simp [begins, h21]⟩)
    · have hb : begins (0x1D :: second :: third :: operands) = true := by simp [begins, h56]
      exact hb ▸ begun_cutCommand third
    · have hb : begins (0x1D :: second :: third :: operands) = true := by simp [begins, h76]
      exact hb ▸ begun_rasterCommand
    · have hb : begins (0x1D :: second :: third :: operands) = has data t 5 := by
        rw [h5, h28]
        simp [begins]
      exact hb ▸ begun_extendedCommand
    · exact .inr (.inr ⟨_, rfl, by simp, by simp [begins, h72]⟩)
    · exact .inr (.inr ⟨_, rfl, by simp, by simp [begins, h61]⟩)
    · exact .inl ⟨rfl, by simp [begins, h21, h56, h72, h61, h28]; tauto⟩

theorem begun_command (h : data.drop t.index = first :: rest) :
    Begun t (command data rasterLineMode t first) (begins (first :: rest)) := by
  unfold command
  cases rest with
  | nil =>
    have h2 : has data t 2 = false := not_has_of_drop h (by simp)
    have h3 : has data t 3 = false := not_has_of_drop h (by simp)
    simp only [h2, h3, Bool.false_eq_true, and_false, if_false]
    exact .inl ⟨rfl, rfl⟩
  | cons second args =>
    have h2 : has data t 2 = true := has_of_drop h (by simp) (by omega)
    have hsecond : data[t.index + 1]? = some second := read_of_drop h 1
    by_cases hesc : first = 0x1B
    · subst hesc
      rw [if_pos ⟨rfl, h2⟩]
      exact begun_escCommand h
    rw [if_neg fun hc => hesc hc.1]
    by_cases hgs : first = 0x1D
    · subst hgs
      rw [if_pos ⟨rfl, h2⟩]
      exact begun_gsCommand h
    rw [if_neg fun hc => hgs hc.1]
    have h3 : has data t 3 = decide (1 ≤ args.length) :=
      Bool.eq_iff_iff.mpr ((has_iff_of_drop h (by omega)).trans (by simp))
    have hb : begins (first :: second :: args) =
        (first = 0x10 && second = 0x04 && has data t 3) := by
      rw [h3]
      simp [begins, hesc, hgs]
    split_ifs with hdle
    · unfold dleCommand
      rw [hsecond, Option.bind_eq_bind, Option.bind_some]
      split_ifs with h04
      · exact .inr (.inr ⟨_, rfl, by simp, by rw [hb, hdle.1, hdle.2, h04]; rfl⟩)
      · exact .inl ⟨rfl, by rw [hb]; simp [h04]⟩
    · refine .inl ⟨rfl, ?_⟩
      rw [hb]
      by_cases h10 : first = 0x10
      · have hno : has data t 3 = false := Bool.eq_false_iff.mpr fun hh => hdle ⟨h10, hh⟩
        rw [hno, Bool.and_false]
      · simp [h10]

/-- What begins no command is text. -/
theorem step_text (h : data.drop t.index = first :: rest) (hb : begins (first :: rest) = false) :
    step data rasterLineMode t = some (plainByte t first) := by
  have hfirst : data[t.index]? = some first := read_of_drop h 0
  have hbegun : Begun t (command data rasterLineMode t first) _ := begun_command h
  rcases hbegun with ⟨hr, -⟩ | ⟨-, htrue⟩ | ⟨-, -, -, htrue⟩
  · unfold step
    simp only [hfirst, hr, Option.bind_eq_bind, Option.bind_some]
  · rw [hb] at htrue
    cases htrue
  · rw [hb] at htrue
    cases htrue

/-- What begins a command is not read as one byte of text. -/
theorem begins_of_step {t' : Transcoder} (h : data.drop t.index = first :: rest)
    (hs : step data rasterLineMode t = some t') (hi : t'.index = t.index + 1) :
    begins (first :: rest) = false := by
  have hfirst : data[t.index]? = some first := read_of_drop h 0
  have hbegun : Begun t (command data rasterLineMode t first) _ := begun_command h
  unfold step at hs
  rcases hbegun with ⟨-, hfalse⟩ | ⟨hr, -⟩ | ⟨t'', hr, hindex, -⟩
  · exact hfalse
  · simp only [hfirst, hr, Option.bind_eq_bind, Option.bind_some] at hs
    cases hs
  · simp only [hfirst, hr, Option.bind_eq_bind, Option.bind_some] at hs
    cases hs
    omega

end Text

/-! ### When the transcoder respects the puts -/

/-- Every command is in the table, and no byte of text begins like one. -/
def Legible (rasterLineMode : Bool) : List Put → Prop
  | [] => True
  | .text c :: puts => begins (c :: spelled puts) = false ∧ Legible rasterLineMode puts
  | .command bytes :: puts =>
    (translation rasterLineMode bytes).isSome = true ∧ Legible rasterLineMode puts

section Walks
variable {data : Bytes} {rasterLineMode : Bool}

theorem drop_of_index {t t' : Transcoder} {bytes rest : Bytes}
    (h : data.drop t.index = bytes ++ rest) (hi : t'.index = t.index + bytes.length) :
    data.drop t'.index = rest := by
  rw [hi, ← List.drop_drop, h, List.drop_left]

theorem honoured_text (c : UInt8) (t : Transcoder) :
    Honoured rasterLineMode (.text c) t (plainByte t c) := by
  unfold plainByte
  by_cases hc : c < 0x80
  · rw [if_pos hc]
    refine ⟨rfl, ?_, ?_⟩
    · rw [if_pos hc]
      rfl
    · rw [if_pos hc]
      rfl
  · rw [if_neg hc]
    refine ⟨?_, ?_, ?_⟩
    · exact congrArg (· + 1) (index_note _ _)
    · rw [if_neg hc]
      exact congrArg StarEncoder.buffer (out_note _ _)
    · rw [if_neg hc]
      exact dropped_note _ _

theorem walks_of_legible : ∀ {puts : List Put} {t : Transcoder},
    data.drop t.index = spelled puts → Legible rasterLineMode puts →
      ∃ t', Walks data rasterLineMode puts t t'
  | [], t, _, _ => ⟨t, rfl⟩
  | .text c :: puts, t, h, ⟨hb, hl⟩ => by
    rw [spelled_cons] at h
    have hs : step data rasterLineMode t = some (plainByte t c) := step_text h hb
    have hh : Honoured rasterLineMode (.text c) t (plainByte t c) := honoured_text c t
    obtain ⟨t', hw⟩ := walks_of_legible (drop_of_index h hh.1) hl
    exact ⟨t', _, hs, hh, hw⟩
  | .command bytes :: puts, t, h, ⟨htr, hl⟩ => by
    rw [spelled_cons] at h
    obtain ⟨tr, htr⟩ := Option.isSome_iff_exists.mp htr
    obtain ⟨next, hs, hindex, hbuffer, hdropped⟩ := step_command h htr
    obtain ⟨t', hw⟩ := walks_of_legible (drop_of_index h hindex) hl
    exact ⟨t', next, hs, ⟨hindex, tr, htr, hbuffer, hdropped⟩, hw⟩

theorem legible_of_walks : ∀ {puts : List Put} {t t' : Transcoder},
    data.drop t.index = spelled puts → Walks data rasterLineMode puts t t' →
      Legible rasterLineMode puts
  | [], _, _, _, _ => trivial
  | .text c :: puts, t, t', h, ⟨next, hs, hh, hw⟩ => by
    rw [spelled_cons] at h
    exact ⟨begins_of_step h hs hh.1, legible_of_walks (drop_of_index h hh.1) hw⟩
  | .command bytes :: puts, t, t', h, ⟨next, hs, ⟨hindex, tr, htr, _⟩, hw⟩ => by
    rw [spelled_cons] at h
    exact ⟨Option.isSome_iff_exists.mpr ⟨tr, htr⟩, legible_of_walks (drop_of_index h hindex) hw⟩

theorem index_of_honoured {put : Put} {t t' : Transcoder} (h : Honoured rasterLineMode put t t') :
    t'.index = t.index + put.bytes.length ∧ 0 < put.bytes.length := by
  cases put with
  | text c => exact ⟨h.1, Nat.zero_lt_one⟩
  | command bytes =>
    obtain ⟨hindex, tr, htr, -⟩ := h
    refine ⟨hindex, ?_⟩
    unfold translation at htr
    split at htr
    · exact Nat.zero_lt_succ _
    · cases htr

/-- The loop takes the turns of the walk. -/
theorem transcodeFrom_walks : ∀ {puts : List Put} {t t' : Transcoder} {fuel : ℕ},
    data.drop t.index = spelled puts → Walks data rasterLineMode puts t t' →
      (spelled puts).length ≤ fuel →
        transcodeFrom data rasterLineMode fuel t = some t' ∧ data.length ≤ t'.index
  | [], t, t', fuel, h, hw, _ => by
    cases hw
    have hend : data.length ≤ t.index := List.drop_eq_nil_iff.mp h
    refine ⟨?_, hend⟩
    cases fuel with
    | zero => rfl
    | succ fuel =>
      rw [transcodeFrom, if_neg (by omega)]
  | put :: puts, t, t', fuel, h, ⟨next, hs, hh, hw⟩, hfuel => by
    rw [spelled_cons] at h hfuel
    obtain ⟨hindex, hpos⟩ := index_of_honoured hh
    rw [List.length_append] at hfuel
    cases fuel with
    | zero => omega
    | succ fuel =>
      have hlast : transcodeFrom data rasterLineMode fuel next = some t' ∧
          data.length ≤ t'.index := transcodeFrom_walks (drop_of_index h hindex) hw (by omega)
      obtain ⟨hrun, hend⟩ := hlast
      refine ⟨?_, hend⟩
      have hlt : t.index < data.length := by
        have hlen := congrArg List.length h
        rw [List.length_drop, List.length_append] at hlen
        omega
      rw [transcodeFrom, if_pos hlt, ← hrun]
      have hfirst : data[t.index]? = some data[t.index] := List.getElem?_eq_getElem hlt
      unfold step at hs
      simp only [hfirst, Option.bind_eq_bind, Option.bind_some] at hs ⊢
      cases hc : command data rasterLineMode t data[t.index] with
      | none =>
        rw [hc] at hs
        cases hs
      | some reading =>
        rw [hc] at hs
        cases reading with
        | done t'' | other => cases hs; rfl
        | cutOff => cases hs

/-- At the end nothing is left to pass through. -/
theorem passThrough_end {t : Transcoder} (h : data.length ≤ t.index) : passThrough data t = t := by
  unfold passThrough
  rw [List.drop_eq_nil_of_le h, Nat.max_eq_left h, Nat.sub_eq_zero_of_le h]
  simp [Transcoder.raw, StarEncoder.raw]

/-- **When the transcoder respects the puts**: exactly where every command is in the table and no
text looks like a command. -/
theorem respects_iff {puts : List Put} :
    Respects rasterLineMode puts ↔ Legible rasterLineMode puts := by
  constructor
  · rintro ⟨t, -, hw⟩
    exact legible_of_walks rfl hw
  · intro hl
    have hstart : (spelled puts).drop ({} : Transcoder).index = spelled puts := rfl
    obtain ⟨t, hw⟩ := walks_of_legible hstart hl
    obtain ⟨hrun, hend⟩ := transcodeFrom_walks hstart hw le_rfl
    refine ⟨t, ?_, hw⟩
    rw [transcodeFromEscPos, hrun, Option.map_some, passThrough_end hend]

end Walks

/-! ### Commands and text -/

section Puts
variable {rasterLineMode : Bool} {puts more : List Put}

/-- Every command is in the table. -/
def Familiar (rasterLineMode : Bool) (puts : List Put) : Prop :=
  ∀ bytes, .command bytes ∈ puts → (translation rasterLineMode bytes).isSome = true

/-- No byte of text begins like a command. -/
def Quiet : List Put → Prop
  | [] => True
  | .text c :: puts => begins (c :: spelled puts) = false ∧ Quiet puts
  | .command _ :: puts => Quiet puts

instance : ∀ puts : List Put, Decidable (Quiet puts)
  | [] => isTrue trivial
  | .text c :: puts =>
    have : Decidable (Quiet puts) := instDecidableQuiet puts
    inferInstanceAs (Decidable (begins (c :: spelled puts) = false ∧ Quiet puts))
  | .command _ :: puts =>
    have : Decidable (Quiet puts) := instDecidableQuiet puts
    inferInstanceAs (Decidable (Quiet puts))

theorem familiar_nil : Familiar rasterLineMode [] := fun _ h => absurd h List.not_mem_nil

theorem familiar_text (c : UInt8) :
    Familiar rasterLineMode (.text c :: puts) ↔ Familiar rasterLineMode puts := by
  refine ⟨fun h bytes hb => h bytes (List.mem_cons_of_mem _ hb), fun h bytes hb => ?_⟩
  rcases List.mem_cons.mp hb with he | hb
  · cases he
  · exact h bytes hb

theorem familiar_command (bytes : Bytes) : Familiar rasterLineMode (.command bytes :: puts) ↔
    (translation rasterLineMode bytes).isSome = true ∧ Familiar rasterLineMode puts := by
  constructor
  · intro h
    exact ⟨h bytes List.mem_cons_self, fun b hb => h b (List.mem_cons_of_mem _ hb)⟩
  · rintro ⟨htr, h⟩ b hb
    rcases List.mem_cons.mp hb with he | hb
    · cases he
      exact htr
    · exact h b hb

theorem familiar_append : Familiar rasterLineMode (puts ++ more) ↔
    Familiar rasterLineMode puts ∧ Familiar rasterLineMode more := by
  constructor
  · intro h
    exact ⟨fun b hb => h b (List.mem_append_left _ hb), fun b hb => h b (List.mem_append_right _ hb)⟩
  · rintro ⟨h, h'⟩ b hb
    exact (List.mem_append.mp hb).elim (h b) (h' b)

theorem legible_iff : ∀ {puts : List Put},
    Legible rasterLineMode puts ↔ Familiar rasterLineMode puts ∧ Quiet puts
  | [] => ⟨fun _ => ⟨familiar_nil, trivial⟩, fun _ => trivial⟩
  | .text c :: puts => by
    rw [Legible, Quiet, familiar_text, legible_iff]
    tauto
  | .command bytes :: puts => by
    rw [Legible, Quiet, familiar_command, legible_iff, and_assoc]

theorem begins_of_ne {c : UInt8} {rest : Bytes} (hesc : c ≠ 0x1B) (hgs : c ≠ 0x1D)
    (hdle : c ≠ 0x10) : begins (c :: rest) = false := by
  unfold begins
  split
  · rename_i first second args he
    cases he
    simp [hesc, hgs, hdle]
  · rfl

/-- Text without `ESC`, `GS` and `DLE` is quiet. -/
theorem quiet_of_text : ∀ {puts : List Put},
    (∀ c, .text c ∈ puts → c ≠ 0x1B ∧ c ≠ 0x1D ∧ c ≠ 0x10) → Quiet puts
  | [], _ => trivial
  | .text c :: puts, h => by
    obtain ⟨hesc, hgs, hdle⟩ := h c List.mem_cons_self
    exact ⟨begins_of_ne hesc hgs hdle, quiet_of_text fun d hd => h d (List.mem_cons_of_mem _ hd)⟩
  | .command _ :: puts, h => by
    rw [Quiet]
    exact quiet_of_text fun d hd => h d (List.mem_cons_of_mem _ hd)

end Puts

end PrinterDriver.Core.Commands
