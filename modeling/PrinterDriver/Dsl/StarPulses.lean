import PrinterDriver.Core.Transcode
import PrinterDriver.Dsl.Pulses

/-! # Pulses on the way to a Star printer

The transcoder drops a drawer command that it meets at a command boundary. `stops` are the places
where it reads a command; `carries` says that something it passes on is made of marked bytes of the
document. A drawer command at a stop is not passed on (`carries_eq_false`). -/

namespace PrinterDriver.Dsl.StarPulses

open PrinterDriver.Core.Types PrinterDriver.Core.Encoder PrinterDriver.Core.Transcode
  PrinterDriver.Dsl.Pulses

/-- The byte belongs to a drawer command that begins at one of the places. -/
def within (starts : List ℕ) (i : ℕ) : Bool := starts.any fun s => s ≤ i && i < s + 5

/-- The step has put something out, and has read a marked byte. -/
def stepCarries (marked : ℕ → Bool) (t t' : Transcoder) : Bool :=
  t'.out.buffer ≠ t.out.buffer &&
    (List.range (t'.index - t.index)).any fun k => marked (t.index + k)

/-- What is passed through from the index on has a marked byte. -/
def restCarries (data : Bytes) (marked : ℕ → Bool) (t : Transcoder) : Bool :=
  (List.range (data.length - t.index)).any fun k => marked (t.index + k)

variable (data : Bytes) (rasterLineMode : Bool)

/-- The transcoder passes on something that is made of marked bytes. -/
def carriesFrom (marked : ℕ → Bool) : ℕ → Transcoder → Bool
  | 0, t => restCarries data marked t
  | fuel + 1, t =>
    match data[t.index]? with
    | none => false
    | some first =>
      match command data rasterLineMode t first with
      | some (.done t') => stepCarries marked t t' || carriesFrom marked fuel t'
      | some .other =>
        stepCarries marked t (plainByte t first) || carriesFrom marked fuel (plainByte t first)
      | some .cutOff | none => restCarries data marked t

def carries (marked : ℕ → Bool) : Bool := carriesFrom data rasterLineMode marked data.length {}

/-- The places where the transcoder reads a command. -/
def stopsFrom : ℕ → Transcoder → List ℕ
  | 0, _ => []
  | fuel + 1, t =>
    match data[t.index]? with
    | none => []
    | some first =>
      t.index ::
        match command data rasterLineMode t first with
        | some (.done t') => stopsFrom fuel t'
        | some .other => stopsFrom fuel (plainByte t first)
        | some .cutOff | none => []

def stops : List ℕ := stopsFrom data rasterLineMode data.length {}

variable {data : Bytes} {rasterLineMode : Bool}

/-! ### A drawer command at a boundary is dropped -/

theorem getElem?_of_pulseAt {start k : ℕ} (h : PulseAt data start) (hk : k < 5) :
    ∃ pin onTime offTime, data[start + k]? = [0x1B, 0x70, pin, onTime, offTime][k]? := by
  obtain ⟨pin, onTime, offTime, rest, hrest⟩ := h
  refine ⟨pin, onTime, offTime, ?_⟩
  rw [← List.getElem?_drop, ← hrest, List.getElem?_append_left (by simpa using hk)]

theorem length_of_pulseAt {start : ℕ} (h : PulseAt data start) : start + 5 ≤ data.length := by
  obtain ⟨_, _, _, hat⟩ := h
  have hlen := hat.length_le
  simp only [List.length_cons, List.length_nil, List.length_drop] at hlen
  omega

/-- The step over a drawer command puts nothing out. -/
theorem command_pulse (rasterLineMode : Bool) {t : Transcoder} (h : PulseAt data t.index) :
    ∃ first t', data[t.index]? = some first ∧
      command data rasterLineMode t first = some (.done t') ∧
        t'.index = t.index + 5 ∧ t'.out = t.out := by
  have hlen := length_of_pulseAt h
  obtain ⟨_, _, _, h0⟩ := getElem?_of_pulseAt h (show 0 < 5 by omega)
  obtain ⟨_, _, _, h1⟩ := getElem?_of_pulseAt h (show 1 < 5 by omega)
  have h2 : has data t 2 = true := decide_eq_true (show t.index + 2 ≤ data.length by omega)
  have h5 : has data t 5 = true := decide_eq_true (show t.index + 5 ≤ data.length by omega)
  obtain ⟨what, hcommand⟩ : ∃ what,
      command data rasterLineMode t 0x1B = some (.done ((t.note what).skip 5)) := by
    rw [command, if_pos ⟨rfl, h2⟩, escCommand, h1]
    simp only [List.getElem?_cons_succ, List.getElem?_cons_zero, Option.bind_eq_bind,
      Option.bind_some]
    rw [if_neg (by decide), if_neg (by decide), if_neg (by decide), if_neg (by decide),
      if_neg (by decide), if_neg (by decide), if_neg (by decide), if_pos trivial, if_pos h5]
    exact ⟨_, rfl⟩
  refine ⟨0x1B, _, h0, hcommand, by simp, ?_⟩
  unfold Transcoder.skip Transcoder.note
  split_ifs <;> rfl

/-! ### The walk -/

theorem index_lt_plainByte (t : Transcoder) (first : UInt8) : t.index < (plainByte t first).index := by
  unfold plainByte
  split_ifs <;> simp

/-- A place where a later command is read is behind the step. -/
theorem le_of_mem_stopsFrom : ∀ {fuel : ℕ} {t : Transcoder},
    ∀ s ∈ stopsFrom data rasterLineMode fuel t, t.index ≤ s
  | 0, _ => fun _ h => nomatch h
  | fuel + 1, t => by
    intro s hs
    unfold stopsFrom at hs
    cases hfirst : data[t.index]? with
    | none => simp [hfirst] at hs
    | some first =>
      obtain ⟨reading, hr, hpast⟩ : Reads t (command data rasterLineMode t first) :=
        reads_command first
      simp only [hfirst, hr, List.mem_cons] at hs
      rcases hs with rfl | hs
      · exact Nat.le_refl _
      · cases reading with
        | done t' =>
          have hlt := hpast t' rfl
          have hle := le_of_mem_stopsFrom s hs
          omega
        | other =>
          have hlt := index_lt_plainByte t first
          have hle := le_of_mem_stopsFrom s hs
          omega
        | cutOff => exact nomatch hs

/-- From the state on, each marked byte belongs to a drawer command that is met. -/
def Met (data : Bytes) (rasterLineMode : Bool) (marked : ℕ → Bool) (fuel : ℕ) (t : Transcoder) :
    Prop :=
  ∀ i, t.index ≤ i → marked i = true →
    ∃ s ∈ stopsFrom data rasterLineMode fuel t, s ≤ i ∧ i < s + 5 ∧ PulseAt data s

/-- A step that is over no drawer command has read no marked byte. -/
theorem Met.step {marked : ℕ → Bool} {fuel : ℕ} {t t' : Transcoder} (hlt : t.index < t'.index)
    (hmet : Met data rasterLineMode marked (fuel + 1) t) (hno : ¬ PulseAt data t.index)
    (hstops : stopsFrom data rasterLineMode (fuel + 1) t =
      t.index :: stopsFrom data rasterLineMode fuel t') :
    stepCarries marked t t' = false ∧ Met data rasterLineMode marked fuel t' := by
  have hlater : ∀ i, t.index ≤ i → marked i = true →
      ∃ s ∈ stopsFrom data rasterLineMode fuel t', s ≤ i ∧ i < s + 5 ∧ PulseAt data s := by
    intro i hi hm
    obtain ⟨s, hs, hle, hlt, hat⟩ := hmet i hi hm
    rw [hstops, List.mem_cons] at hs
    rcases hs with rfl | hs
    · exact absurd hat hno
    · exact ⟨s, hs, hle, hlt, hat⟩
  constructor
  · rw [stepCarries, Bool.and_eq_false_iff]
    refine .inr (List.any_eq_false.mpr fun k hk hm => ?_)
    obtain ⟨s, hs, hle, -, -⟩ := hlater _ (Nat.le_add_right _ _) hm
    have hpast := le_of_mem_stopsFrom s hs
    have hrange := List.mem_range.mp hk
    omega
  · exact fun i hi hm => hlater i (by omega) hm

/-- A step over a drawer command leaves the marked bytes behind it met. -/
theorem Met.pulse {marked : ℕ → Bool} {fuel : ℕ} {t t' : Transcoder}
    (hmet : Met data rasterLineMode marked (fuel + 1) t) (hindex : t'.index = t.index + 5)
    (hstops : stopsFrom data rasterLineMode (fuel + 1) t =
      t.index :: stopsFrom data rasterLineMode fuel t') :
    Met data rasterLineMode marked fuel t' := by
  intro i hi hm
  obtain ⟨s, hs, hle, hlt, hat⟩ := hmet i (by omega) hm
  rw [hstops, List.mem_cons] at hs
  rcases hs with rfl | hs
  · omega
  · exact ⟨s, hs, hle, hlt, hat⟩

/-- Where no later command is read, what is left has no marked byte. -/
theorem Met.rest {marked : ℕ → Bool} {fuel : ℕ} {t : Transcoder}
    (hmet : Met data rasterLineMode marked fuel t)
    (hnone : ∀ s ∈ stopsFrom data rasterLineMode fuel t, ¬ PulseAt data s) :
    restCarries data marked t = false := by
  refine List.any_eq_false.mpr fun k _ hm => ?_
  obtain ⟨s, hs, -, -, hat⟩ := hmet _ (Nat.le_add_right _ _) hm
  exact hnone s hs hat

theorem carriesFrom_eq_false {marked : ℕ → Bool} : ∀ {fuel : ℕ} {t : Transcoder},
    Met data rasterLineMode marked fuel t →
      carriesFrom data rasterLineMode marked fuel t = false
  | 0, _, hmet => hmet.rest fun _ hs => nomatch hs
  | fuel + 1, t, hmet => by
    by_cases hat : PulseAt data t.index
    · obtain ⟨first, t', hfirst, hcommand, hindex, hout⟩ :=
        command_pulse rasterLineMode hat
      have hstops : stopsFrom data rasterLineMode (fuel + 1) t =
          t.index :: stopsFrom data rasterLineMode fuel t' := by
        simp only [stopsFrom, hfirst, hcommand]
      have hstep : stepCarries marked t t' = false := by
        rw [stepCarries, hout, Bool.and_eq_false_iff]
        exact .inl (decide_eq_false (fun h => h rfl))
      simp only [carriesFrom, hfirst, hcommand, hstep, Bool.false_or]
      exact carriesFrom_eq_false (hmet.pulse hindex hstops)
    · cases hfirst : data[t.index]? with
      | none => simp only [carriesFrom, hfirst]
      | some first =>
        obtain ⟨reading, hr, hpast⟩ : Reads t (command data rasterLineMode t first) :=
          reads_command first
        cases reading with
        | done t' =>
          have hstops : stopsFrom data rasterLineMode (fuel + 1) t =
              t.index :: stopsFrom data rasterLineMode fuel t' := by
            simp only [stopsFrom, hfirst, hr]
          obtain ⟨hstep, hmet'⟩ := hmet.step (hpast t' rfl) hat hstops
          simp only [carriesFrom, hfirst, hr, hstep, Bool.false_or]
          exact carriesFrom_eq_false hmet'
        | other =>
          have hstops : stopsFrom data rasterLineMode (fuel + 1) t =
              t.index :: stopsFrom data rasterLineMode fuel (plainByte t first) := by
            simp only [stopsFrom, hfirst, hr]
          obtain ⟨hstep, hmet'⟩ := hmet.step (index_lt_plainByte t first) hat hstops
          simp only [carriesFrom, hfirst, hr, hstep, Bool.false_or]
          exact carriesFrom_eq_false hmet'
        | cutOff =>
          have hstops : stopsFrom data rasterLineMode (fuel + 1) t = [t.index] := by
            simp only [stopsFrom, hfirst, hr]
          simp only [carriesFrom, hfirst, hr]
          refine hmet.rest fun s hs => ?_
          rw [hstops, List.mem_singleton] at hs
          exact hs ▸ hat

/-- **What the transcoder meets as a drawer command it does not pass on.** -/
theorem carries_eq_false {starts : List ℕ} (hat : ∀ s ∈ starts, PulseAt data s)
    (hstop : ∀ s ∈ starts, s ∈ stops data rasterLineMode) :
    carries data rasterLineMode (within starts) = false := by
  refine carriesFrom_eq_false fun i _ hm => ?_
  obtain ⟨s, hs, hin⟩ := List.any_eq_true.mp hm
  rw [Bool.and_eq_true, decide_eq_true_eq, decide_eq_true_eq] at hin
  exact ⟨s, hstop s hs, hin.1, hin.2, hat s hs⟩

end PrinterDriver.Dsl.StarPulses
