import PrinterDriver.Core.EscposParser

/-! # The stream of responses

A driver feeds the parser what it reads, chunk by chunk, and may ask for more answers in between. The
chunks do not matter, every byte is accounted for and the expectations are used up in their order
(`chunks_conserved`); and a `GS ( H` acknowledgement is found exactly where its seven bytes stand
(`acks_exact`). -/

namespace PrinterDriver.Core.Responses

open PrinterDriver.Core.Types PrinterDriver.Core.EscposParser PrinterDriver.Lib.Scanning
open ResponseParser (gsHDisqualified asbDisqualified answeredKinds scanner Waiting)

/-! ### Bytes and events -/

/-- The bytes that an event stands for. -/
def bytesOf : ParsedEvent → Bytes
  | .gsHAck token => [0x37, 0x22] ++ token ++ [0x00]
  | .asbStatus frame => frame
  | .realtimeStatus _ byte | .queuedStatus byte | .unknownByte byte => [byte]

def bytesOfAll (es : List ParsedEvent) : Bytes := es.flatMap bytesOf

@[simp] theorem bytesOfAll_nil : bytesOfAll [] = [] := rfl

@[simp] theorem bytesOfAll_cons (e : ParsedEvent) (es : List ParsedEvent) :
    bytesOfAll (e :: es) = bytesOf e ++ bytesOfAll es := List.flatMap_cons

/-- Chunk after chunk. -/
def feedAll : ResponseParser → List Bytes → List ParsedEvent × ResponseParser
  | p, [] => ([], p)
  | p, chunk :: chunks =>
    ((p.feed chunk).1 ++ (feedAll (p.feed chunk).2 chunks).1, (feedAll (p.feed chunk).2 chunks).2)

section Conservation
variable {p q : ResponseParser} {e : ParsedEvent}

theorem frame_of_gsH {b : Bytes} (hlen : 7 ≤ b.length) (hfirst : b[0]? = some 0x37)
    (hok : gsHDisqualified b = false) :
    b = [0x37, 0x22] ++ (b.take 6).drop 2 ++ [0x00] ++ b.drop 7 := by
  obtain ⟨a0, a1, a2, a3, a4, a5, a6, rest, rfl⟩ :
      ∃ a0 a1 a2 a3 a4 a5 a6 rest, b = a0 :: a1 :: a2 :: a3 :: a4 :: a5 :: a6 :: rest := by
    match b, hlen with
    | a0 :: a1 :: a2 :: a3 :: a4 :: a5 :: a6 :: rest, _ => exact ⟨a0, a1, a2, a3, a4, a5, a6, rest, rfl⟩
  have h0 : a0 = 0x37 := by simpa using hfirst
  have h1 : a1 = 0x22 := by
    by_contra hne
    simp [gsHDisqualified, hne] at hok
  have h6 : a6 = 0x00 := by
    by_contra hne
    simp [gsHDisqualified, hne] at hok
  rw [h0, h1, h6]
  rfl

/-- The bytes of an event are the ones that its step takes. -/
theorem bytes_of_step {force : Bool} (h : p.step force = .emitted e q) :
    p.buffer = bytesOf e ++ q.buffer := by
  cases ResponseParser.step_emits h with
  | gsH hlen hfirst hok => exact frame_of_gsH hlen hfirst hok
  | asb hlen => exact (List.take_append_drop 4 p.buffer).symm
  | realtime kind kinds first rest hb | queued first rest hb | unknown first rest hb => exact hb

theorem bytes_of_drain {force : Bool} : ∀ (n : ℕ) (p : ResponseParser),
    p.buffer = bytesOfAll (p.drain force n).1 ++ (p.drain force n).2.buffer
  | 0, _ => rfl
  | n + 1, p => by
    unfold ResponseParser.drain
    cases h : p.step force with
    | emitted e q =>
      have hq : q.buffer = bytesOfAll (q.drain force n).1 ++ (q.drain force n).2.buffer :=
        bytes_of_drain n q
      rw [bytes_of_step h, bytesOfAll_cons, List.append_assoc, ← hq]
    | needMore | empty => rfl

/-- A step takes a byte at least. -/
theorem length_of_step {force : Bool} (h : p.step force = .emitted e q) :
    q.buffer.length < p.buffer.length := by
  cases ResponseParser.step_emits h with
  | gsH hlen =>
    rw [List.length_drop]
    omega
  | asb hlen =>
    rw [List.length_drop]
    omega
  | realtime kind kinds first rest hb | queued first rest hb | unknown first rest hb =>
    rw [hb]
    exact Nat.lt_succ_self _

/-- Only a byte that is missing holds bytes back, and the end of the stream misses none. -/
theorem step_force (p : ResponseParser) : p.step true ≠ .needMore := by
  unfold ResponseParser.step
  cases hb : p.buffer with
  | nil => exact fun h => nomatch h
  | cons first rest =>
    dsimp only
    split_ifs with h1 h2 h3 h4
    · exact fun h => nomatch h
    · exact absurd h2.2.2 (by decide)
    · exact fun h => nomatch h
    · exact absurd h4.2.2 (by decide)
    · unfold ResponseParser.stepByte
      split
      · split_ifs <;> exact fun h => nomatch h
      · split_ifs <;> exact fun h => nomatch h

theorem empty_of_step {force : Bool} (h : p.step force = .empty) : p.buffer = [] := by
  unfold ResponseParser.step at h
  cases hb : p.buffer with
  | nil => rfl
  | cons first rest =>
    exfalso
    rw [hb] at h
    dsimp only at h
    split_ifs at h
    unfold ResponseParser.stepByte at h
    split at h <;> split_ifs at h

/-- Flushing leaves nothing behind. -/
theorem drain_empties : ∀ (n : ℕ) (p : ResponseParser), p.buffer.length ≤ n →
    (p.drain true n).2.buffer = []
  | 0, p, h => List.eq_nil_of_length_eq_zero (Nat.le_zero.mp h)
  | n + 1, p, h => by
    unfold ResponseParser.drain
    cases hs : p.step true with
    | emitted e q =>
      have hlt : q.buffer.length < p.buffer.length := length_of_step hs
      exact drain_empties n q (by omega)
    | needMore => exact absurd hs (step_force p)
    | empty => exact empty_of_step hs

/-- What is held is the start of a frame. -/
theorem held_of_waiting (h : p.Waiting) : p.buffer.length ≤ 6 := by
  have hs : ∀ e q, p.step false ≠ .emitted e q := fun e q he => by
    have hsome : scanner.step p = some (e, q) := ResponseParser.scanner_step.mpr he
    rw [show scanner.step p = none from h] at hsome
    cases hsome
  unfold ResponseParser.step at hs
  cases hb : p.buffer with
  | nil => exact Nat.zero_le 6
  | cons first rest =>
    by_contra hlong
    rw [hb] at hs
    dsimp only at hs
    have hbyte : ∃ e q, p.stepByte first rest = .emitted e q := by
      unfold ResponseParser.stepByte
      split
      · split_ifs <;> exact ⟨_, _, rfl⟩
      · split_ifs <;> exact ⟨_, _, rfl⟩
    obtain ⟨e, q, hbyte⟩ := hbyte
    split_ifs at hs with h1 h2 h3 h4
    · exact hs _ _ rfl
    · exact h1 ⟨h2.1, h2.2.1, by omega⟩
    · exact hs _ _ rfl
    · exact h3 ⟨h4.1, h4.2.1, by omega⟩
    · exact hs _ _ hbyte

/-- Real-time answers take the expected kinds from the front, queued ones reduce their count. -/
theorem expectations_of_drain {force : Bool} : ∀ (n : ℕ) (p : ResponseParser),
    p.realtime = answeredKinds (p.drain force n).1 ++ (p.drain force n).2.realtime ∧
      (p.drain force n).1.countP ParsedEvent.isQueued + (p.drain force n).2.queued = p.queued
  | 0, _ => ⟨rfl, Nat.zero_add _⟩
  | n + 1, p => by
    unfold ResponseParser.drain
    cases h : p.step force with
    | needMore | empty => exact ⟨rfl, Nat.zero_add _⟩
    | emitted e q =>
      obtain ⟨hkinds, hqueued⟩ := @expectations_of_drain force n q
      dsimp only
      rw [List.countP_cons]
      unfold answeredKinds at hkinds ⊢
      rw [List.filterMap_cons]
      cases ResponseParser.step_emits h with
      | realtime kind kinds first rest hb hk =>
        rw [hk]
        exact ⟨congrArg (kind :: ·) hkinds, hqueued⟩
      | queued first rest hb hq =>
        have hone : (ParsedEvent.queuedStatus first).isQueued = true := rfl
        refine ⟨hkinds, ?_⟩
        dsimp only at hqueued
        rw [if_pos hone]
        omega
      | gsH | asb | unknown => exact ⟨hkinds, hqueued⟩

theorem bytes_of_feed (p : ResponseParser) (x : Bytes) :
    p.buffer ++ x = bytesOfAll (p.feed x).1 ++ (p.feed x).2.buffer :=
  bytes_of_drain (p.buffer ++ x).length (p.push x)

theorem feed_nil {p : ResponseParser} (h : p.Waiting) : p.feed [] = ([], p) := by
  have hpush : p.push [] = p := by
    unfold ResponseParser.push
    rw [List.append_nil]
  rw [ResponseParser.feed_eq, Scanner.feed]
  show scanner.drain _ (p.push []) = _
  rw [hpush]
  exact Scanner.drain_of_none h _

/-- **The chunks do not matter.** -/
theorem feedAll_eq : ∀ {chunks : List Bytes} {p : ResponseParser}, p.Waiting →
    feedAll p chunks = p.feed chunks.flatten
  | [], p, h => (feed_nil h).symm
  | chunk :: chunks, p, h => by
    have hrest : feedAll (p.feed chunk).2 chunks = (p.feed chunk).2.feed chunks.flatten :=
      feedAll_eq (ResponseParser.waiting_feed p chunk)
    rw [feedAll, hrest, List.flatten_cons, ResponseParser.feed_append]

/-- A parser that holds nothing yet, with what it was told to expect. -/
def expecting (kinds : List DleEotKind) (queued : ℕ) : ResponseParser :=
  { realtime := kinds, queued := queued }

theorem waiting_expecting (kinds : List DleEotKind) (queued : ℕ) :
    (expecting kinds queued).Waiting := rfl

/-- **Chunks are indifferent and every byte is accounted for**: events, held bytes and expectations
depend on the stream alone; the bytes of the events and the held ones are the stream; real-time
answers have the kinds that were expected first, queued answers are as many as were expected at
most; at most six bytes are held, and a flush hands them out and holds none. -/
theorem chunks_conserved (kinds : List DleEotKind) (queued : ℕ) (chunks : List Bytes) :
    let out := feedAll (expecting kinds queued) chunks
    let last := out.2.flush
    out = (expecting kinds queued).feed chunks.flatten ∧
      bytesOfAll out.1 ++ out.2.buffer = chunks.flatten ∧
      answeredKinds (out.1 ++ last.1) ++ last.2.realtime = kinds ∧
      (out.1 ++ last.1).countP ParsedEvent.isQueued + last.2.queued = queued ∧
      out.2.buffer.length ≤ 6 ∧
      bytesOfAll last.1 = out.2.buffer ∧ last.2.buffer = [] := by
  intro out last
  have hout : out = (expecting kinds queued).feed chunks.flatten :=
    feedAll_eq (waiting_expecting kinds queued)
  have hheld : out.2.Waiting := by
    rw [hout]
    exact ResponseParser.waiting_feed _ _
  have hbytes : chunks.flatten = bytesOfAll out.1 ++ out.2.buffer := by
    rw [hout]
    exact bytes_of_feed (expecting kinds queued) chunks.flatten
  obtain ⟨hkinds, hqueued⟩ : kinds = answeredKinds out.1 ++ out.2.realtime ∧
      out.1.countP ParsedEvent.isQueued + out.2.queued = queued := by
    rw [hout]
    exact expectations_of_drain _ ((expecting kinds queued).push chunks.flatten)
  obtain ⟨hkinds', hqueued'⟩ : out.2.realtime = answeredKinds last.1 ++ last.2.realtime ∧
      last.1.countP ParsedEvent.isQueued + last.2.queued = out.2.queued :=
    expectations_of_drain _ out.2
  have hempty : last.2.buffer = [] := drain_empties _ _ le_rfl
  have hflushed : out.2.buffer = bytesOfAll last.1 ++ last.2.buffer := bytes_of_drain _ out.2
  rw [hempty, List.append_nil] at hflushed
  refine ⟨hout, hbytes.symm, ?_, ?_, held_of_waiting hheld, hflushed.symm, hempty⟩
  · rw [hkinds, hkinds', answeredKinds, List.filterMap_append, List.append_assoc]
    rfl
  · rw [List.countP_append]
    omega

end Conservation

/-! ### Acknowledgements -/

/-- The token of the acknowledgement that begins here. -/
def ackAt : Bytes → Option Bytes
  | a0 :: a1 :: d1 :: d2 :: d3 :: d4 :: a6 :: _ =>
    if a0 = 0x37 ∧ a1 = 0x22 ∧ [d1, d2, d3, d4].all isPrintableAscii ∧ a6 = 0x00 then
      some [d1, d2, d3, d4]
    else none
  | _ => none

/-- The tokens of the acknowledgements in a stream, wherever one begins. -/
def acknowledgements : Bytes → List Bytes
  | [] => []
  | c :: rest => (ackAt (c :: rest)).toList ++ acknowledgements rest

/-- The tokens that the parser reports. -/
def tokensOf (es : List ParsedEvent) : List Bytes :=
  es.filterMap fun
    | .gsHAck token => some token
    | _ => none

/-- What a driver does with its parser while the stream arrives. -/
inductive Call where
  | feed (chunk : Bytes)
  | expectRealtime (kind : DleEotKind)
  | expectQueued
  deriving DecidableEq, Repr

/-- The bytes of the stream. -/
def fed : List Call → Bytes
  | [] => []
  | .feed chunk :: calls => chunk ++ fed calls
  | .expectRealtime _ :: calls | .expectQueued :: calls => fed calls

def runCalls : ResponseParser → List Call → List ParsedEvent × ResponseParser
  | p, [] => ([], p)
  | p, .feed chunk :: calls =>
    ((p.feed chunk).1 ++ (runCalls (p.feed chunk).2 calls).1, (runCalls (p.feed chunk).2 calls).2)
  | p, .expectRealtime kind :: calls => runCalls (p.expectRealtime kind) calls
  | p, .expectQueued :: calls => runCalls p.expectQueued calls

section Acknowledgements
variable {p q : ResponseParser} {e : ParsedEvent}

theorem ackAt_of_ne {c : UInt8} {rest : Bytes} (h : c ≠ 0x37) : ackAt (c :: rest) = none := by
  unfold ackAt
  split
  · rename_i he
    cases he
    rw [if_neg fun hc => h hc.1]
  · rfl

theorem acknowledgements_of_ne {c : UInt8} {rest : Bytes} (h : c ≠ 0x37) :
    acknowledgements (c :: rest) = acknowledgements rest := by
  rw [acknowledgements, ackAt_of_ne h]
  rfl

theorem acknowledgements_skip : ∀ {bytes rest : Bytes}, (∀ c ∈ bytes, c ≠ 0x37) →
    acknowledgements (bytes ++ rest) = acknowledgements rest
  | [], _, _ => rfl
  | c :: bytes, rest, h => by
    rw [List.cons_append, acknowledgements_of_ne (h c List.mem_cons_self)]
    exact acknowledgements_skip fun d hd => h d (List.mem_cons_of_mem _ hd)

/-- The tokens are four printable bytes between the header and the zero. -/
theorem ackAt_eq_some {b token : Bytes} (h : ackAt b = some token) :
    ∃ rest, b = [0x37, 0x22] ++ token ++ [0x00] ++ rest ∧ token.length = 4 ∧
      token.all isPrintableAscii = true := by
  unfold ackAt at h
  split at h
  · rename_i a0 a1 d1 d2 d3 d4 a6 rest
    split_ifs at h with hc
    cases h
    obtain ⟨rfl, rfl, hall, rfl⟩ := hc
    exact ⟨rest, rfl, rfl, hall⟩
  · cases h

theorem ackAt_frame {token rest : Bytes} (hlen : token.length = 4)
    (hall : token.all isPrintableAscii = true) :
    ackAt ([0x37, 0x22] ++ token ++ [0x00] ++ rest) = some token := by
  match token, hlen with
  | [d1, d2, d3, d4], _ => exact if_pos ⟨rfl, rfl, hall, rfl⟩

/-- A zero among the first six bytes rules an acknowledgement out. -/
theorem ackAt_of_zero {b : Bytes} (h : 0x00 ∈ b.take 6) : ackAt b = none := by
  cases hack : ackAt b with
  | none => rfl
  | some token =>
    exfalso
    obtain ⟨rest, rfl, hlen, hall⟩ := ackAt_eq_some hack
    have htake : ([0x37, 0x22] ++ token ++ [0x00] ++ rest).take 6 = [0x37, 0x22] ++ token := by
      rw [List.append_assoc, List.take_append_of_le_length (by simp [hlen])]
      exact List.take_of_length_le (by simp [hlen])
    rw [htake] at h
    rcases List.mem_append.mp h with hhead | htoken
    · revert hhead
      decide
    · exact absurd (List.all_eq_true.mp hall _ htoken) (by decide)

theorem acknowledgements_of_zero {c : UInt8} {rest : Bytes} (h : 0x00 ∈ (c :: rest).take 6) :
    acknowledgements (c :: rest) = acknowledgements rest := by
  rw [acknowledgements, ackAt_of_zero h]
  rfl

/-- An acknowledgement does not overlap the next one. -/
theorem acknowledgements_frame {token rest : Bytes} (hlen : token.length = 4)
    (hall : token.all isPrintableAscii = true) :
    acknowledgements ([0x37, 0x22] ++ token ++ [0x00] ++ rest) =
      token :: acknowledgements rest := by
  have hack : ackAt ([0x37, 0x22] ++ token ++ [0x00] ++ rest) = some token :=
    ackAt_frame hlen hall
  match token, hlen with
  | [d1, d2, d3, d4], _ =>
    have hfirst : acknowledgements (0x37 :: 0x22 :: d1 :: d2 :: d3 :: d4 :: 0x00 :: rest) =
        [d1, d2, d3, d4] :: acknowledgements (0x22 :: d1 :: d2 :: d3 :: d4 :: 0x00 :: rest) := by
      conv_lhs => unfold acknowledgements
      exact congrArg (fun o : Option Bytes => o.toList ++ _) hack
    refine hfirst.trans (congrArg (_ :: ·) ?_)
    have h1 : acknowledgements (d1 :: d2 :: d3 :: d4 :: 0x00 :: rest) =
        acknowledgements (d2 :: d3 :: d4 :: 0x00 :: rest) := acknowledgements_of_zero (by simp)
    have h2 : acknowledgements (d2 :: d3 :: d4 :: 0x00 :: rest) =
        acknowledgements (d3 :: d4 :: 0x00 :: rest) := acknowledgements_of_zero (by simp)
    have h3 : acknowledgements (d3 :: d4 :: 0x00 :: rest) =
        acknowledgements (d4 :: 0x00 :: rest) := acknowledgements_of_zero (by simp)
    have h4 : acknowledgements (d4 :: 0x00 :: rest) = acknowledgements (0x00 :: rest) :=
      acknowledgements_of_zero (by simp)
    rw [acknowledgements_of_ne (by decide), h1, h2, h3, h4, acknowledgements_of_ne (by decide)]

theorem acknowledgements_short : ∀ {b : Bytes}, b.length ≤ 6 → acknowledgements b = []
  | [], _ => rfl
  | c :: rest, h => by
    have hnone : ackAt (c :: rest) = none := by
      cases hack : ackAt (c :: rest) with
      | none => rfl
      | some token =>
        obtain ⟨more, he, hlen, -⟩ := ackAt_eq_some hack
        have htotal := congrArg List.length he
        simp only [List.length_append, List.length_cons, List.length_nil, hlen] at htotal h
        omega
    have hrest : acknowledgements rest = [] :=
      acknowledgements_short (Nat.le_of_succ_le h)
    rw [acknowledgements, hnone, hrest]
    rfl

theorem not_disqualified {token rest : Bytes} (hlen : token.length = 4)
    (hall : token.all isPrintableAscii = true) :
    gsHDisqualified ([0x37, 0x22] ++ token ++ [0x00] ++ rest) = false := by
  match token, hlen with
  | [d1, d2, d3, d4], _ =>
    have hslice : (([d1, d2, d3, d4] : Bytes).any fun b => !isPrintableAscii b) = false := by
      rw [List.any_eq_false]
      intro b hb
      rw [List.all_eq_true.mp hall b hb]
      decide
    have hbytes : gsHDisqualified (0x37 :: 0x22 :: d1 :: d2 :: d3 :: d4 :: 0x00 :: rest) =
        (false || ([d1, d2, d3, d4] : Bytes).any (fun b => !isPrintableAscii b) || false) := rfl
    exact hbytes.trans (by rw [hslice]; rfl)

/-- Where an acknowledgement begins, the parser takes it, whatever it expects. -/
theorem step_of_ackAt {token : Bytes} (h : ackAt p.buffer = some token) :
    p.step false = .emitted (.gsHAck token) { p with buffer := p.buffer.drop 7 } := by
  obtain ⟨rest, hb, hlen, hall⟩ := ackAt_eq_some h
  have hok : gsHDisqualified p.buffer = false := by
    rw [hb]
    exact not_disqualified hlen hall
  have hlong : 7 ≤ p.buffer.length := by
    rw [hb]
    simp only [List.length_append, List.length_cons, List.length_nil, hlen]
    omega
  have htoken : (p.buffer.take 6).drop 2 = token := by
    rw [hb]
    match token, hlen with
    | [d1, d2, d3, d4], _ => rfl
  unfold ResponseParser.step
  cases hbuf : p.buffer with
  | nil =>
    rw [hbuf] at hlong
    exact absurd hlong (by decide)
  | cons first more =>
    have hfirst : first = 0x37 := by
      rw [hbuf] at hb
      exact (List.cons.inj hb).1
    rw [hbuf] at hok hlong htoken
    dsimp only
    rw [if_pos ⟨hfirst, by rw [hok]; rfl, hlong⟩, htoken]

theorem token_of_gsH {b : Bytes} (hlen : 7 ≤ b.length) (hok : gsHDisqualified b = false) :
    ((b.take 6).drop 2).length = 4 ∧ ((b.take 6).drop 2).all isPrintableAscii = true := by
  constructor
  · rw [List.length_drop, List.length_take]
    omega
  · unfold gsHDisqualified at hok
    rw [Bool.or_eq_false_iff, Bool.or_eq_false_iff] at hok
    rw [List.all_eq_true]
    intro c hc
    have hno : ¬ (!isPrintableAscii c) = true := List.any_eq_false.mp hok.1.2 c hc
    simpa using hno

/-- A header byte does not look like one of an ASB frame. -/
theorem ne_of_asb {b : Bytes} (hfirst : b[0]?.any looksLikeAsbByte)
    (hok : asbDisqualified b = false) : ∀ c ∈ b.take 4, c ≠ 0x37 := by
  have hno : looksLikeAsbByte 0x37 = false := ResponseParser.not_asb_of_gsH rfl
  cases b with
  | nil => exact fun c hc => absurd hc List.not_mem_nil
  | cons first rest =>
    rintro c hc rfl
    rcases List.mem_cons.mp hc with rfl | hrest
    · simp [hno] at hfirst
    · have hlater : ¬ (!looksLikeAsbByte 0x37) = true := List.any_eq_false.mp hok _ hrest
      rw [hno] at hlater
      exact hlater rfl

/-- A step reports the acknowledgement that begins where it is taken, or passes none. -/
theorem acknowledgements_of_step (h : p.step false = .emitted e q) :
    acknowledgements p.buffer = tokensOf [e] ++ acknowledgements q.buffer := by
  cases hack : ackAt p.buffer with
  | some token =>
    rw [step_of_ackAt hack] at h
    cases h
    obtain ⟨rest, hb, hlen, hall⟩ := ackAt_eq_some hack
    have hdrop : p.buffer.drop 7 = rest := by
      rw [hb]
      exact List.drop_left' (by simp [hlen])
    show _ = token :: acknowledgements (p.buffer.drop 7)
    rw [hdrop, hb]
    exact acknowledgements_frame hlen hall
  | none =>
    have hbyte : ∀ first rest, p.buffer = first :: rest →
        acknowledgements p.buffer = acknowledgements rest := by
      intro first rest hb
      rw [hb] at hack ⊢
      rw [acknowledgements, hack]
      rfl
    cases ResponseParser.step_emits h with
    | gsH hlen hfirst hok =>
      obtain ⟨hfour, hall⟩ := token_of_gsH hlen hok
      rw [frame_of_gsH hlen hfirst hok, ackAt_frame hfour hall] at hack
      cases hack
    | asb hlen hfirst hok =>
      have hskip : acknowledgements (p.buffer.take 4 ++ p.buffer.drop 4) =
          acknowledgements (p.buffer.drop 4) := acknowledgements_skip (ne_of_asb hfirst hok)
      rwa [List.take_append_drop] at hskip
    | realtime kind kinds first rest hb => exact hbyte first rest hb
    | queued first rest hb => exact hbyte first rest hb
    | unknown first rest hb => exact hbyte first rest hb

theorem tokensOf_cons (e : ParsedEvent) (es : List ParsedEvent) :
    tokensOf (e :: es) = tokensOf [e] ++ tokensOf es := List.filterMap_append (l := [e])

theorem tokensOf_append (es fs : List ParsedEvent) :
    tokensOf (es ++ fs) = tokensOf es ++ tokensOf fs := List.filterMap_append

/-- The steps of a read report what lies before the held bytes, whatever follows. -/
theorem acknowledgements_of_drain (rest : Bytes) : ∀ (n : ℕ) (p : ResponseParser),
    acknowledgements (p.buffer ++ rest) =
      tokensOf (p.drain false n).1 ++ acknowledgements ((p.drain false n).2.buffer ++ rest)
  | 0, _ => rfl
  | n + 1, p => by
    unfold ResponseParser.drain
    cases h : p.step false with
    | emitted e q =>
      have hpush : acknowledgements (p.buffer ++ rest) =
          tokensOf [e] ++ acknowledgements (q.buffer ++ rest) :=
        acknowledgements_of_step (ResponseParser.step_push rest h)
      dsimp only
      rw [hpush, acknowledgements_of_drain rest n q, tokensOf_cons e (q.drain false n).1,
        List.append_assoc]
    | needMore | empty => rfl

theorem acknowledgements_of_run : ∀ {calls : List Call} {p : ResponseParser}, p.Waiting →
    tokensOf (runCalls p calls).1 = acknowledgements (p.buffer ++ fed calls)
  | [], p, h => by
    rw [fed, List.append_nil, acknowledgements_short (held_of_waiting h)]
    rfl
  | .feed chunk :: calls, p, h => by
    have hdrain : acknowledgements (p.buffer ++ chunk ++ fed calls) =
        tokensOf (p.feed chunk).1 ++ acknowledgements ((p.feed chunk).2.buffer ++ fed calls) :=
      acknowledgements_of_drain (fed calls) _ (p.push chunk)
    rw [fed, ← List.append_assoc, hdrain, runCalls, tokensOf_append,
      acknowledgements_of_run (ResponseParser.waiting_feed p chunk)]
  | .expectRealtime kind :: calls, p, h => by
    have hnext : (p.expectRealtime kind).Waiting := h.congr rfl
    rw [fed, runCalls, acknowledgements_of_run hnext]
    rfl
  | .expectQueued :: calls, p, h => by
    have hnext : p.expectQueued.Waiting := h.congr rfl
    rw [fed, runCalls, acknowledgements_of_run hnext]
    rfl

/-- **Acknowledgements are never masked or invented**: whatever is expected, before or in between,
and however the stream is cut, the reported tokens are those of the frames in it, in order. -/
theorem acks_exact (kinds : List DleEotKind) (queued : ℕ) (calls : List Call) :
    tokensOf (runCalls (expecting kinds queued) calls).1 = acknowledgements (fed calls) :=
  acknowledgements_of_run (waiting_expecting kinds queued)

example : acknowledgements [0x37, 0x37, 0x22, 0x41, 0x37, 0x22, 0x42, 0x00, 0x37, 0x22] =
    [[0x41, 0x37, 0x22, 0x42]] := by decide

end Acknowledgements

end PrinterDriver.Core.Responses
