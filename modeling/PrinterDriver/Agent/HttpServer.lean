import PrinterDriver.Agent.Http
import PrinterDriver.Lib.Searching
import Mathlib.Data.List.Basic
import Mathlib.Algebra.Group.Nat.Defs

/-! # The request on the wire

How `http.cpp` takes a request off a socket: bytes until a head is there, the head parsed, bytes until the
body is there. A head ends with a blank line, of which there are two kinds, and `headerEnd` looks for the
one kind in everything that has arrived before it looks for the other. What the handler is given is then
independent of how the bytes arrived exactly if no blank line of the first kind can arrive in one read
with an earlier one of the second (`framed_iff`). -/

namespace PrinterDriver.Agent.HttpServer

open PrinterDriver.Core.Types PrinterDriver.Agent.Http PrinterDriver.Lib.Searching

/-! ### Text -/

def isSpace (c : UInt8) : Bool := c = 32 || (9 ≤ c && c ≤ 13)

def lowercase (text : Bytes) : Bytes := text.map fun c => if 65 ≤ c ∧ c ≤ 90 then c + 32 else c

def trim (text : Bytes) : Bytes :=
  ((text.dropWhile isSpace).reverse.dropWhile isSpace).reverse

def isDigit (c : UInt8) : Bool := 48 ≤ c && c ≤ 57

/-- The largest `unsigned long long`. -/
def kMax : ℕ := 2 ^ 64 - 1

/-- `strtoull` in base ten on a C string: the value, and what it did not read. -/
def strtoull (text : Bytes) : ℕ × Bytes :=
  let text := text.takeWhile (· ≠ 0)
  let signed := text.dropWhile isSpace
  let digits := if signed.head? = some 43 ∨ signed.head? = some 45 then signed.tail else signed
  let value := (digits.takeWhile isDigit).foldl (fun n c => 10 * n + (c.toNat - 48)) 0
  if digits.takeWhile isDigit = [] then (0, text)
  else if kMax < value then (kMax, digits.dropWhile isDigit)
  else if signed.head? = some 45 then ((2 ^ 64 - value) % 2 ^ 64, digits.dropWhile isDigit)
  else (value, digits.dropWhile isDigit)

/-! ### Requests and responses -/

structure HttpRequest where
  method : Bytes := []
  target : Bytes := []
  raw_path : Bytes := []
  path : Bytes := []
  query : Bytes := []
  headers : List (Bytes × Bytes) := []
  body : Bytes := []
  deriving DecidableEq, Repr

def HttpRequest.header (request : HttpRequest) (name : Bytes) : Option Bytes :=
  (request.headers.find? fun entry => entry.1 = lowercase name).map Prod.snd

structure HttpResponse where
  status : ℕ := 200
  content_type : Bytes := str "application/json"
  body : Bytes := []
  deriving DecidableEq, Repr

def HttpResponse.json (status : ℕ) (body : Bytes) : HttpResponse :=
  { status := status, body := body }

structure HttpServerConfig where
  max_body_bytes : ℕ := 8 * 1024 * 1024
  deriving DecidableEq, Repr

/-! ### The head -/

def kCrlf : Bytes := [13, 10, 13, 10]

def kLf : Bytes := [10, 10]

/-- `CRLF CRLF` anywhere in the buffer is preferred to `LF LF`. -/
def headerEnd (buffer : Bytes) : Option ℕ :=
  match endOf kCrlf buffer with
  | some crlf => some crlf
  | none => endOf kLf buffer

/-- One line of a header block. -/
def headerLine (line : Bytes) : Option (Bytes × Bytes) :=
  if 58 ∈ line then
    some (lowercase (line.takeWhile (· ≠ 58)), trim (line.dropWhile (· ≠ 58)).tail)
  else none

/-- The first line, and the name and value of every line after it that is not blank. -/
def parseHeaderBlock (block : Bytes) : Option (Bytes × List (Bytes × Bytes)) :=
  match block.splitOn 10 with
  | first :: line :: lines =>
    (((line :: lines).map trim).filter (· ≠ [])).mapM headerLine |>.map (trim first, ·)
  | _ => none

/-- The method and the target of a request line. -/
def splitRequestLine (line : Bytes) : Option (Bytes × Bytes) :=
  let rest := (line.dropWhile (· ≠ 32)).tail
  if 32 ∈ line ∧ 32 ∈ rest then some (line.takeWhile (· ≠ 32), rest.takeWhile (· ≠ 32)) else none

/-- A request but for its body, and the length of the body; or the answer to what is none. -/
def parseHead (config : HttpServerConfig) (head : Bytes) : Except HttpResponse (HttpRequest × ℕ) :=
  match parseHeaderBlock head with
  | none => .error (.json 400 (str "\x7b\"error\":\"malformed request headers\"\x7d"))
  | some (line, headers) =>
    match splitRequestLine line with
    | none => .error (.json 400 (str "\x7b\"error\":\"malformed request line\"\x7d"))
    | some (method, target) =>
      let raw_path := target.takeWhile (· ≠ 63)
      let request : HttpRequest := {
        method := method, target := target, raw_path := raw_path, path := percentDecode raw_path,
        query := (target.dropWhile (· ≠ 63)).tail, headers := headers }
      if ((request.header (str "transfer-encoding")).getD []) ≠ [] then
        .error (.json 501
          (str "\x7b\"error\":\"transfer-encoding is not supported; send content-length\"\x7d"))
      else
        let length := strtoull ((request.header (str "content-length")).getD [])
        if length.2 ≠ [] then
          .error (.json 400 (str "\x7b\"error\":\"malformed content-length\"\x7d"))
        else if config.max_body_bytes < length.1 then
          .error (.json 413 (str "\x7b\"error\":\"body too large\"\x7d"))
        else .ok (request, length.1)

/-! ### The socket -/

/-- What one `recv` takes at most. -/
def kChunk : ℕ := 4096

/-- Reads until the bytes are complete: they, and the reads that are left. The peer closes after the last
of the reads. -/
def readUntil (complete : Bytes → Bool) (limit : ℕ) : Bytes → List Bytes → Option (Bytes × List Bytes)
  | buffer, [] => if complete buffer then some (buffer, []) else none
  | buffer, chunk :: chunks =>
    if complete buffer then some (buffer, chunk :: chunks)
    else if limit < buffer.length then none
    else readUntil complete limit (buffer ++ chunk) chunks

/-- What comes of a connection. -/
inductive Outcome where
  | dropped
  | refused (response : HttpResponse)
  | handed (request : HttpRequest)
  deriving DecidableEq, Repr

def headLimit (config : HttpServerConfig) : ℕ := config.max_body_bytes + 65536

def readHead (config : HttpServerConfig) (chunks : List Bytes) : Option (Bytes × List Bytes) :=
  readUntil (fun text => (headerEnd text).isSome) (headLimit config) [] chunks

def incomplete : HttpResponse :=
  .json 400 (str "\x7b\"error\":\"incomplete request body\"\x7d")

def serve (config : HttpServerConfig) (chunks : List Bytes) : Outcome :=
  match readHead config chunks with
  | none => .dropped
  | some (buffer, rest) =>
    let body_start := (headerEnd buffer).getD 0
    match parseHead config (buffer.take body_start) with
    | .error response => .refused response
    | .ok (request, expected) =>
      let needed := body_start + expected
      match readUntil (fun text => needed ≤ text.length) (needed + 1024) buffer rest with
      | none => .refused incomplete
      | some (buffer, _) => .handed { request with body := (buffer.drop body_start).take expected }

/-! ### What the stream says -/

/-- The head ends at the first blank line of either kind. -/
def headEnd : Bytes → Option ℕ
  | [] => none
  | b :: rest =>
    if kCrlf.isPrefixOf (b :: rest) then some 4
    else if kLf.isPrefixOf (b :: rest) then some 2
    else (headEnd rest).map (· + 1)

/-- The request whose head ends there, its body the bytes that follow. -/
def answerAt (config : HttpServerConfig) (stream : Bytes) (e : ℕ) : Outcome :=
  match parseHead config (stream.take e) with
  | .error response => .refused response
  | .ok (request, expected) =>
    if e + expected ≤ stream.length then
      .handed { request with body := (stream.drop e).take expected }
    else .refused incomplete

/-- A stream in the reads that it came in. -/
def Arrives (stream : Bytes) (chunks : List Bytes) : Prop :=
  chunks.flatten = stream ∧ ∀ c ∈ chunks, c ≠ [] ∧ c.length ≤ kChunk

instance (stream : Bytes) (chunks : List Bytes) : Decidable (Arrives stream chunks) :=
  inferInstanceAs (Decidable (_ ∧ _))

/-- However the stream arrives, its head ends where it ends, and it gets its answer. -/
structure Framed (config : HttpServerConfig) (stream : Bytes) : Prop where
  boundary : ∀ chunks, Arrives stream chunks →
    ∃ buffer rest, readHead config chunks = some (buffer, rest) ∧ headerEnd buffer = headEnd stream
  answer : ∀ e, headEnd stream = some e → ∀ chunks, Arrives stream chunks →
    serve config chunks = answerAt config stream e

/-- The head is there, and is shorter than the limit. -/
def HeadFits (config : HttpServerConfig) (stream : Bytes) : Prop :=
  ∃ e, headEnd stream = some e ∧ e < headLimit config

/-- The first `LF LF` ends before the first `CRLF CRLF`, and one read can hold the end of both. -/
def Shadowed (stream : Bytes) : Prop :=
  ∃ lf crlf, endOf kLf stream = some lf ∧ endOf kCrlf stream = some crlf ∧
    lf < crlf ∧ crlf < lf + kChunk

/-! ### Blank lines -/

/-- Which of the two kinds of blank line ends the head, if there is one. -/
theorem headEnd_cases (s : Bytes) :
    (headEnd s = none ∧ endOf kCrlf s = none ∧ endOf kLf s = none) ∨
      (∃ e, headEnd s = some e ∧ endOf kCrlf s = some e ∧ ∀ f, endOf kLf s = some f → e < f) ∨
      ∃ e, headEnd s = some e ∧ endOf kLf s = some e ∧ ∀ c, endOf kCrlf s = some c → e < c := by
  induction s with
  | nil => exact .inl ⟨rfl, rfl, rfl⟩
  | cons b rest ih =>
    by_cases hc : kCrlf <+: b :: rest
    · obtain ⟨t, ht⟩ := hc
      have hs : b :: rest = 13 :: 10 :: 13 :: 10 :: t := ht.symm
      have hend : endOf kCrlf (b :: rest) = some 4 := endOf_cons_of_isPrefix ⟨t, ht⟩
      refine .inr (.inl ⟨4, if_pos (List.isPrefixOf_iff_prefix.mpr ⟨t, ht⟩), hend, ?_⟩)
      intro f hf
      have h1 : ¬kLf <+: 13 :: 10 :: 13 :: 10 :: t := by simp [kLf]
      have h2 : ¬kLf <+: 10 :: 13 :: 10 :: t := by simp [kLf]
      have h3 : ¬kLf <+: 13 :: 10 :: t := by simp [kLf]
      rw [hs, endOf_cons h1, endOf_cons h2, endOf_cons h3] at hf
      simp only [Option.map_map, Option.map_eq_some_iff] at hf
      obtain ⟨f', hf', rfl⟩ := hf
      have h2 : 2 ≤ f' := (le_of_endOf hf').1
      show 4 < f' + 1 + 1 + 1
      omega
    · have hno : ¬kCrlf.isPrefixOf (b :: rest) = true := fun h =>
        hc (List.isPrefixOf_iff_prefix.mp h)
      by_cases hl : kLf <+: b :: rest
      · refine .inr (.inr ⟨2, ?_, endOf_cons_of_isPrefix hl, ?_⟩)
        · rw [headEnd, if_neg hno, if_pos (List.isPrefixOf_iff_prefix.mpr hl)]
        · intro c hcend
          have h4 : 4 ≤ c := (le_of_endOf hcend).1
          omega
      · have hno' : ¬kLf.isPrefixOf (b :: rest) = true := fun h =>
          hl (List.isPrefixOf_iff_prefix.mp h)
        rw [headEnd, if_neg hno, if_neg hno', endOf_cons hc, endOf_cons hl]
        rcases ih with ⟨h, hcend, hlend⟩ | ⟨e, h, hcend, hlend⟩ | ⟨e, h, hlend, hcend⟩
        · rw [h, hcend, hlend]
          exact .inl ⟨rfl, rfl, rfl⟩
        · refine .inr (.inl ⟨e + 1, by rw [h]; rfl, by rw [hcend]; rfl, ?_⟩)
          intro f hf
          obtain ⟨f', hf', rfl⟩ := Option.map_eq_some_iff.mp hf
          have := hlend f' hf'
          omega
        · refine .inr (.inr ⟨e + 1, by rw [h]; rfl, by rw [hlend]; rfl, ?_⟩)
          intro c hc'
          obtain ⟨c', hc'', rfl⟩ := Option.map_eq_some_iff.mp hc'
          have := hcend c' hc''
          omega

theorem headerEnd_of_crlf {b : Bytes} {e : ℕ} (h : endOf kCrlf b = some e) :
    headerEnd b = some e := by
  rw [headerEnd, h]

theorem headerEnd_of_lf {b : Bytes} {e : ℕ} (h : endOf kLf b = some e)
    (hc : endOf kCrlf b = none) : headerEnd b = some e := by
  rw [headerEnd, hc]
  exact h

theorem headerEnd_eq_none {b : Bytes} :
    headerEnd b = none ↔ endOf kCrlf b = none ∧ endOf kLf b = none := by
  rw [headerEnd]
  cases endOf kCrlf b with
  | none => exact ⟨fun h => ⟨rfl, h⟩, fun h => h.2⟩
  | some e => exact ⟨fun h => (by cases h), fun h => (by cases h.1)⟩

theorem headerEnd_le {b : Bytes} {e : ℕ} (h : headerEnd b = some e) : e ≤ b.length := by
  rw [headerEnd] at h
  cases hc : endOf kCrlf b with
  | none =>
    rw [hc] at h
    exact (le_of_endOf h).2
  | some c =>
    rw [hc] at h
    cases h
    exact (le_of_endOf hc).2

section Stream
variable {config : HttpServerConfig} {s : Bytes} {e : ℕ} (he : headEnd s = some e)
include he

/-- A buffer without a blank line is shorter than the head. -/
theorem length_lt_of_none {a : Bytes} (ha : a <+: s) (hnone : headerEnd a = none) :
    a.length < e := by
  obtain ⟨hc, hl⟩ := headerEnd_eq_none.mp hnone
  have htake : s.take a.length = a := (List.prefix_iff_eq_take.mp ha).symm
  by_contra hle
  rcases headEnd_cases s with ⟨h, -⟩ | ⟨e', h, hend, -⟩ | ⟨e', h, hend, -⟩
  · rw [h] at he
    cases he
  · rw [h] at he
    cases he
    have hin := endOf_take.mpr ⟨hend, Nat.le_of_not_lt hle⟩
    rw [htake, hc] at hin
    cases hin
  · rw [h] at he
    cases he
    have hin := endOf_take.mpr ⟨hend, Nat.le_of_not_lt hle⟩
    rw [htake, hl] at hin
    cases hin

/-- The end that is found in a buffer, read by read, is that of the stream. -/
theorem headerEnd_of_read (hsh : ¬Shadowed s) {b : Bytes} (hb : b <+: s) (hsome : headerEnd b ≠ none)
    (hread : b = [] ∨ ∃ a c, b = a ++ c ∧ c.length ≤ kChunk ∧ headerEnd a = none) :
    headerEnd b = some e := by
  have htake : s.take b.length = b := (List.prefix_iff_eq_take.mp hb).symm
  have hcrlf : ∀ x, endOf kCrlf b = some x → endOf kCrlf s = some x ∧ x ≤ b.length := fun x hx =>
    endOf_take.mp (by rw [htake]; exact hx)
  have hlf : ∀ x, endOf kLf b = some x → endOf kLf s = some x ∧ x ≤ b.length := fun x hx =>
    endOf_take.mp (by rw [htake]; exact hx)
  rcases headEnd_cases s with ⟨h, -⟩ | ⟨e', h, hend, hlate⟩ | ⟨e', h, hend, hlate⟩
  · rw [h] at he
    cases he
  · rw [h] at he
    cases he
    cases hc : endOf kCrlf b with
    | some x =>
      have hx := (hcrlf x hc).1
      rw [hend] at hx
      cases hx
      exact headerEnd_of_crlf hc
    | none =>
      cases hl : endOf kLf b with
      | none => exact absurd (headerEnd_eq_none.mpr ⟨hc, hl⟩) hsome
      | some f =>
        obtain ⟨hf, hle⟩ := hlf f hl
        have hlt := hlate f hf
        have hin := endOf_take.mpr ⟨hend, show e ≤ b.length by omega⟩
        rw [htake, hc] at hin
        cases hin
  · rw [h] at he
    cases he
    cases hc : endOf kCrlf b with
    | none =>
      cases hl : endOf kLf b with
      | none => exact absurd (headerEnd_eq_none.mpr ⟨hc, hl⟩) hsome
      | some f =>
        have hf := (hlf f hl).1
        rw [hend] at hf
        cases hf
        exact headerEnd_of_lf hl hc
    | some x =>
      -- The read that brought the later blank line brought the end of the earlier one too.
      obtain ⟨hx, hle⟩ := hcrlf x hc
      have hlt := hlate x hx
      rcases hread with rfl | ⟨a, c, rfl, hlen, hnone⟩
      · cases hc
      · have ha := length_lt_of_none h ((List.prefix_append a c).trans hb) hnone
        rw [List.length_append] at hle
        exact absurd ⟨e, x, hend, hx, hlt, by omega⟩ hsh

end Stream

/-! ### Reading -/

section Reading
variable {complete : Bytes → Bool} {limit : ℕ}

theorem readUntil_some {chunks rest : List Bytes} {buffer b : Bytes}
    (h : readUntil complete limit buffer chunks = some (b, rest)) :
    complete b = true ∧ b ++ rest.flatten = buffer ++ chunks.flatten ∧
      (b = buffer ∨ ∃ a, ∃ c ∈ chunks, b = a ++ c ∧ complete a = false) := by
  induction chunks generalizing buffer with
  | nil =>
    by_cases hc : complete buffer = true
    · rw [readUntil, if_pos hc] at h
      cases h
      exact ⟨hc, rfl, .inl rfl⟩
    · rw [readUntil, if_neg hc] at h
      cases h
  | cons chunk chunks ih =>
    by_cases hc : complete buffer = true
    · rw [readUntil, if_pos hc] at h
      cases h
      exact ⟨hc, rfl, .inl rfl⟩
    · rw [readUntil, if_neg hc] at h
      by_cases hl : limit < buffer.length
      · rw [if_pos hl] at h
        cases h
      · rw [if_neg hl] at h
        obtain ⟨hb, hflat, hlast⟩ := ih h
        refine ⟨hb, ?_, .inr ?_⟩
        · rw [hflat, List.append_assoc, List.flatten_cons]
        · rcases hlast with rfl | ⟨a, c, hmem, rfl, ha⟩
          · exact ⟨buffer, chunk, List.mem_cons_self, rfl, by simpa using hc⟩
          · exact ⟨a, c, List.mem_cons_of_mem chunk hmem, rfl, ha⟩

/-- Within the limit a complete stream is read. -/
theorem exists_readUntil {chunks : List Bytes} {buffer : Bytes}
    (hdone : complete (buffer ++ chunks.flatten) = true)
    (hlimit : ∀ a, a <+: buffer ++ chunks.flatten → complete a = false → a.length ≤ limit) :
    ∃ b rest, readUntil complete limit buffer chunks = some (b, rest) := by
  induction chunks generalizing buffer with
  | nil =>
    rw [List.flatten_nil, List.append_nil] at hdone
    exact ⟨buffer, [], if_pos hdone⟩
  | cons chunk chunks ih =>
    rw [List.flatten_cons, ← List.append_assoc] at hdone hlimit
    by_cases hc : complete buffer = true
    · exact ⟨buffer, chunk :: chunks, if_pos hc⟩
    · have hle : buffer.length ≤ limit := by
        refine hlimit buffer ?_ (by simpa using hc)
        rw [List.append_assoc]
        exact List.prefix_append _ _
      obtain ⟨b, rest, h⟩ := ih hdone hlimit
      exact ⟨b, rest, by rw [readUntil, if_neg hc, if_neg (Nat.not_lt.mpr hle), h]⟩

/-- The read that completes the bytes is the last. -/
theorem readUntil_last {cs ds : List Bytes} {c buffer : Bytes}
    (hno : ∀ a, a <+: buffer ++ cs.flatten → complete a = false)
    (hlimit : (buffer ++ cs.flatten).length ≤ limit)
    (hyes : complete (buffer ++ cs.flatten ++ c) = true) :
    readUntil complete limit buffer (cs ++ c :: ds) = some (buffer ++ cs.flatten ++ c, ds) := by
  have hbuffer : ¬complete buffer = true := by
    rw [hno buffer (List.prefix_append _ _)]
    exact Bool.false_ne_true
  have hle : ¬limit < buffer.length := by
    rw [List.length_append] at hlimit
    omega
  induction cs generalizing buffer with
  | nil =>
    rw [List.flatten_nil, List.append_nil] at hyes ⊢
    rw [List.nil_append, readUntil, if_neg hbuffer, if_neg hle]
    cases ds with
    | nil => exact if_pos hyes
    | cons d ds => exact if_pos hyes
  | cons chunk cs ih =>
    rw [List.flatten_cons, ← List.append_assoc] at hno hlimit hyes ⊢
    rw [List.cons_append, readUntil, if_neg hbuffer, if_neg hle]
    have hnext : (buffer ++ chunk) <+: buffer ++ chunk ++ cs.flatten := List.prefix_append _ _
    refine ih hno hlimit hyes ?_ ?_
    · rw [hno _ hnext]
      exact Bool.false_ne_true
    · have := hnext.length_le
      omega

end Reading

/-! ### One request -/

/-- Once the head ends where it does, the rest of the exchange is that of the stream. -/
theorem serve_eq {config : HttpServerConfig} {chunks rest : List Bytes} {s buffer : Bytes} {e : ℕ}
    (hread : readHead config chunks = some (buffer, rest)) (hs : buffer ++ rest.flatten = s)
    (hend : headerEnd buffer = some e) : serve config chunks = answerAt config s e := by
  have hle := headerEnd_le hend
  have htake : buffer.take e = s.take e := by
    rw [← hs, List.take_append_of_le_length hle]
  unfold serve answerAt
  simp only [hread, hend, Option.getD_some, htake]
  cases hparse : parseHead config (s.take e) with
  | error response => rfl
  | ok parsed =>
    obtain ⟨request, expected⟩ := parsed
    dsimp only
    by_cases hlen : e + expected ≤ s.length
    · have hdone : decide (e + expected ≤ (buffer ++ rest.flatten).length) = true := by
        rw [hs]
        exact decide_eq_true hlen
      have hlimit : ∀ a, a <+: buffer ++ rest.flatten →
          decide (e + expected ≤ a.length) = false → a.length ≤ e + expected + 1024 := by
        intro a _ ha
        have := of_decide_eq_false ha
        omega
      have hread : ∃ b rest', readUntil (fun text => decide (e + expected ≤ text.length))
          (e + expected + 1024) buffer rest = some (b, rest') := exists_readUntil hdone hlimit
      obtain ⟨b, rest', hbody⟩ := hread
      obtain ⟨hneeded, hb, -⟩ := readUntil_some hbody
      have hneeded : e + expected ≤ b.length := of_decide_eq_true hneeded
      have hdrop : (b.drop e).take expected = (s.drop e).take expected := by
        rw [← hs, ← hb, List.drop_append_of_le_length (by omega), List.take_append_of_le_length]
        rw [List.length_drop]
        omega
      rw [hbody, if_pos hlen]
      dsimp only
      rw [hdrop]
    · rw [if_neg hlen]
      cases hbody : readUntil (fun text => decide (e + expected ≤ text.length))
        (e + expected + 1024) buffer rest with
      | none => rfl
      | some r =>
        obtain ⟨b, rest'⟩ := r
        obtain ⟨hneeded, hb, -⟩ := readUntil_some hbody
        have hneeded : e + expected ≤ b.length := of_decide_eq_true hneeded
        rw [← hs, ← hb, List.length_append] at hlen
        omega

section Stream
variable {config : HttpServerConfig} {s : Bytes}

/-- A head within the limit is read, and ends where that of the stream does. -/
theorem readHead_of_not_shadowed (hsh : ¬Shadowed s) {e : ℕ} (he : headEnd s = some e)
    (hfits : e < headLimit config) {chunks : List Bytes} (hchunks : Arrives s chunks) :
    ∃ buffer rest, readHead config chunks = some (buffer, rest) ∧ buffer ++ rest.flatten = s ∧
      headerEnd buffer = some e := by
  obtain ⟨hflat, hsize⟩ := hchunks
  have hs : [] ++ chunks.flatten = s := hflat
  have hdone : (headerEnd ([] ++ chunks.flatten)).isSome = true := by
    rw [hs]
    by_contra hno
    have := length_lt_of_none he (List.prefix_refl s) (Option.not_isSome_iff_eq_none.mp hno)
    rcases headEnd_cases s with ⟨h, -⟩ | ⟨e', h, hend, -⟩ | ⟨e', h, hend, -⟩
    · rw [h] at he
      cases he
    all_goals
      rw [h] at he
      cases he
      have := (le_of_endOf hend).2
      omega
  have hlimit : ∀ a, a <+: [] ++ chunks.flatten → (headerEnd a).isSome = false →
      a.length ≤ headLimit config := by
    intro a ha hnone
    rw [hs] at ha
    have := length_lt_of_none he ha (Option.isSome_eq_false_iff.mp hnone |> Option.isNone_iff_eq_none.mp)
    omega
  have hread : ∃ b rest, readHead config chunks = some (b, rest) :=
    exists_readUntil hdone hlimit
  obtain ⟨buffer, rest, hread⟩ := hread
  obtain ⟨hsome, hb, hlast⟩ := readUntil_some hread
  rw [hs] at hb
  have hne : headerEnd buffer ≠ none := Option.isSome_iff_ne_none.mp hsome
  refine ⟨buffer, rest, hread, hb, headerEnd_of_read he hsh ⟨rest.flatten, hb⟩ hne ?_⟩
  rcases hlast with h | ⟨a, c, hc, h, hno⟩
  · exact .inl h
  · exact .inr ⟨a, c, h, (hsize c hc).2, Option.not_isSome_iff_eq_none.mp (by simpa using hno)⟩

theorem framed_of_not_shadowed (hsh : ¬Shadowed s) (hfits : HeadFits config s) :
    Framed config s where
  boundary chunks hchunks := by
    obtain ⟨e, he, hlt⟩ := hfits
    obtain ⟨buffer, rest, hread, -, hend⟩ := readHead_of_not_shadowed hsh he hlt hchunks
    exact ⟨buffer, rest, hread, by rw [hend, he]⟩
  answer e he chunks hchunks := by
    obtain ⟨e', he', hlt⟩ := hfits
    rw [he] at he'
    cases he'
    obtain ⟨buffer, rest, hread, hs, hend⟩ := readHead_of_not_shadowed hsh he hlt hchunks
    exact serve_eq hread hs hend

/-- Byte by byte. -/
theorem arrives_singly (b : Bytes) : Arrives b (b.map fun c => [c]) := by
  refine ⟨?_, ?_⟩
  · induction b with
    | nil => rfl
    | cons c b ih => rw [List.map_cons, List.flatten_cons, ih, List.singleton_append]
  · intro c hc
    obtain ⟨x, -, rfl⟩ := List.mem_map.mp hc
    refine ⟨List.cons_ne_nil _ _, ?_⟩
    rw [List.length_singleton]
    decide

/-- The read that holds both blank lines moves the end of the head. -/
theorem shadowed_read (hsh : Shadowed s) (hfits : HeadFits config s) :
    ∃ chunks lf crlf rest, Arrives s chunks ∧ headEnd s = some lf ∧ lf < crlf ∧
      readHead config chunks = some (s.take crlf, rest) ∧ headerEnd (s.take crlf) = some crlf := by
  obtain ⟨lf, crlf, hlf, hcrlf, hlt, hread⟩ := hsh
  obtain ⟨e, he, hlimit⟩ := hfits
  have hheadEnd : headEnd s = some lf := by
    rcases headEnd_cases s with ⟨-, -, h⟩ | ⟨e', -, hend, hlate⟩ | ⟨e', h, hend, -⟩
    · rw [hlf] at h
      cases h
    · rw [hcrlf] at hend
      cases hend
      have := hlate lf hlf
      omega
    · rw [hlf] at hend
      cases hend
      exact h
  rw [hheadEnd] at he
  cases he
  obtain ⟨h2, -⟩ := le_of_endOf hlf
  have hlen := (le_of_endOf hcrlf).2
  have h2 : 2 ≤ lf := h2
  -- Byte by byte up to the last byte of the head, then one read up to the later blank line.
  set before := s.take (lf - 1) with hbefore
  set last := (s.take crlf).drop (lf - 1) with hlastDef
  have hjoin : before ++ last = s.take crlf := by
    have hb : before = (s.take crlf).take (lf - 1) := by
      rw [List.take_take, hbefore]
      congr 1
      omega
    rw [hb, List.take_append_drop]
  have hbeforeLen : before.length = lf - 1 := by
    rw [hbefore, List.length_take]
    omega
  have hlastLen : last.length = crlf - (lf - 1) := by
    rw [hlastDef, List.length_drop, List.length_take]
    omega
  obtain ⟨hflat, hsmall⟩ := arrives_singly before
  obtain ⟨hflat', hsmall'⟩ := arrives_singly (s.drop crlf)
  refine ⟨before.map (fun c => [c]) ++ last :: (s.drop crlf).map fun c => [c], lf, crlf,
    (s.drop crlf).map fun c => [c],
    ⟨?_, ?_⟩, hheadEnd, hlt, ?_, ?_⟩
  · rw [List.flatten_append, List.flatten_cons, hflat, hflat', ← List.append_assoc, hjoin,
      List.take_append_drop]
  · intro c hc
    rcases List.mem_append.mp hc with hc | hc
    · exact hsmall c hc
    · rcases List.mem_cons.mp hc with rfl | hc
      · refine ⟨List.ne_nil_of_length_pos (by omega), ?_⟩
        rw [hlastLen]
        omega
      · exact hsmall' c hc
  · have hno : ∀ a, a <+: [] ++ (before.map fun c => [c]).flatten →
        (headerEnd a).isSome = false := by
      intro a ha
      rw [hflat] at ha
      have hshort : a.length ≤ lf - 1 := hbeforeLen ▸ ha.length_le
      have htake : s.take a.length = a :=
        (List.prefix_iff_eq_take.mp (ha.trans (List.take_prefix _ s))).symm
      rw [Option.isSome_eq_false_iff, Option.isNone_iff_eq_none, headerEnd_eq_none]
      constructor
      · cases h : endOf kCrlf a with
        | none => rfl
        | some x =>
          rw [← htake] at h
          obtain ⟨hx, hle⟩ := endOf_take.mp h
          rw [hcrlf] at hx
          cases hx
          omega
      · cases h : endOf kLf a with
        | none => rfl
        | some x =>
          rw [← htake] at h
          obtain ⟨hx, hle⟩ := endOf_take.mp h
          rw [hlf] at hx
          cases hx
          omega
    have hyes : (headerEnd ([] ++ (before.map fun c => [c]).flatten ++ last)).isSome = true := by
      rw [hflat, List.nil_append, hjoin, headerEnd_of_crlf (endOf_take.mpr ⟨hcrlf, Nat.le_refl _⟩)]
      rfl
    have hshort : ([] ++ (before.map fun c => [c]).flatten).length ≤ headLimit config := by
      rw [hflat, List.nil_append]
      omega
    rw [readHead, readUntil_last hno hshort hyes, hflat, List.nil_append, hjoin]
  · exact headerEnd_of_crlf (endOf_take.mpr ⟨hcrlf, Nat.le_refl _⟩)

/-- **What the handler gets does not depend on how the bytes arrive exactly if no blank line of the
preferred kind can come in one read with an earlier one of the other.** -/
theorem framed_iff (hfits : HeadFits config s) : Framed config s ↔ ¬Shadowed s := by
  constructor
  · intro h hsh
    obtain ⟨chunks, lf, crlf, rest, hchunks, hhead, hlt, hread, hend⟩ := shadowed_read hsh hfits
    obtain ⟨buffer, rest', hread', hend'⟩ := h.boundary chunks hchunks
    rw [hread] at hread'
    cases hread'
    rw [hend, hhead] at hend'
    cases hend'
    omega
  · exact fun hsh => framed_of_not_shadowed hsh hfits

end Stream

/-- Lines that end with `LF`, and a body that begins with a blank line of the other kind. -/
def bareLines : Bytes := str "POST /jobs HTTP/1.1\nContent-Length: 4\n\n\r\n\r\nNEXT"

theorem framed_bareLines : Framed {} bareLines ↔ ¬Shadowed bareLines :=
  framed_iff ⟨39, by decide, by decide⟩

/-- **The same bytes, in one read and in two: two bodies.** -/
theorem not_framed_bareLines :
    ¬∀ (config : HttpServerConfig) (s : Bytes), HeadFits config s →
      ∀ x y, Arrives s x → Arrives s y → serve config x = serve config y := by
  intro h
  have hsame := h {} bareLines ⟨39, by decide, by decide⟩ [bareLines]
    [bareLines.take 39, bareLines.drop 39] (by decide) (by decide)
  exact absurd hsame (by decide)

end PrinterDriver.Agent.HttpServer
