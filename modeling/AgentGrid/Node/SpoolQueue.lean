import AgentGrid.Node.EventLineText

/-!
# The event outbox is a queue

Whole lines are read as they were written, so the file always stands for a
list of lines: those that parse are the queue, in order, and the others wait to
be moved aside.
-/

namespace AgentGrid.Node

open AgentGrid.Foundation AgentGrid.Store

variable {V : Type}

/-! ## Reading back -/

section Text

@[simp] theorem readToString_map_char (text : List Char) :
    readToString (text.map FileCell.char) = some text := by
  induction text with
  | nil => rfl
  | cons c text ih =>
      rw [List.map_cons, readToString, List.mapM_cons]
      rw [readToString] at ih
      simp [FileCell.char?, ih]

theorem eq_map_char {line : List FileCell} {text : List Char}
    (h : readToString line = some text) : line = text.map FileCell.char := by
  induction line generalizing text with
  | nil =>
      have htext : [] = text := by simpa [readToString] using h
      rw [← htext]
      rfl
  | cons cell line ih =>
      rw [readToString, List.mapM_cons] at h
      cases cell with
      | byte b => simp [FileCell.char?] at h
      | char c =>
          obtain ⟨rest, hrest, rfl⟩ : ∃ rest, line.mapM FileCell.char? = some rest ∧
              c :: rest = text := by
            simpa [FileCell.char?, Option.bind_eq_some_iff] using h
          rw [List.map_cons, ← ih hrest]

theorem stripCr_cases (line : List Char) :
    stripCr line = line ∨ line = stripCr line ++ ['\r'] := by
  unfold stripCr
  split
  · rename_i h
    right
    exact (List.dropLast_append_getLast? _ h).symm
  · exact .inl rfl

theorem newline_not_mem_stripCr {line : List Char} (h : '\n' ∉ line) :
    '\n' ∉ stripCr line := by
  rcases stripCr_cases line with hsame | hcut
  · rwa [hsame]
  · intro hmem
    exact h (hcut ▸ List.mem_append_left _ hmem)

@[simp] theorem isBlankLine_stripCr (line : List Char) :
    isBlankLine (stripCr line) = isBlankLine line := by
  rcases stripCr_cases line with hsame | hcut
  · rw [hsame]
  · have hcr : isWhitespace '\r' = true := by decide
    rw [hcut, isBlankLine, isBlankLine, List.all_append]
    rw [← hcut]
    simp [hcr]

@[simp] theorem bare_stripCr (line : List Char) : bare (stripCr line) = bare line := by
  rcases stripCr_cases line with hsame | hcut
  · rw [hsame]
  · calc bare (stripCr line) = bare (stripCr line ++ ['\r']) := by
          rw [bare, bare, List.rdropWhile_concat_pos _ _ _ (by rfl)]
      _ = bare line := by rw [← hcut]

@[simp] theorem LineCodec.parse_stripCr (codec : LineCodec V) (line : List Char) :
    codec.parse (stripCr line) = codec.parse line := by
  rcases stripCr_cases line with hsame | hcut
  · rw [hsame]
  · calc codec.parse (stripCr line) = codec.parse (stripCr line ++ ['\r']) :=
          (codec.parse_cr _).symm
      _ = codec.parse line := by rw [← hcut]

theorem lines_unlines {rows : List (List Char)} (h : ∀ row ∈ rows, '\n' ∉ row) :
    lines (unlines rows) = rows.map stripCr := by
  rw [lines, unlines, pieces_terminated h, List.map_map]
  rfl

end Text

/-! ## The queue -/

namespace LineCodec

variable (codec : LineCodec V)

/-- The event a line stands for. -/
def event? (line : List Char) : Option (Incoming V) :=
  if isBlankLine line then none else (codec.parse line).map codec.incoming

def corrupt (line : List Char) : Bool := !isBlankLine line && (codec.parse line).isNone

@[simp] theorem event?_stripCr (line : List Char) :
    codec.event? (stripCr line) = codec.event? line := by
  simp [event?]

@[simp] theorem corrupt_stripCr (line : List Char) :
    codec.corrupt (stripCr line) = codec.corrupt line := by
  simp [corrupt]

theorem isBlankLine_print (l : EventLine V) : isBlankLine (codec.print l) = false := by
  rw [← Bool.not_eq_true, isBlankLine, List.all_eq_true]
  intro h
  have hbrace := h _ (List.mem_of_getLast? (codec.print_brace l))
  revert hbrace
  decide

theorem incoming_line (ev : Incoming V) (now : Nat) :
    codec.incoming (codec.line ev now) = ev := by
  simp [incoming, line, codec.typeOf_typeValue]

theorem event?_print (ev : Incoming V) (now : Nat) :
    codec.event? (codec.print (codec.line ev now)) = some ev := by
  simp [event?, codec.isBlankLine_print, codec.parse_print, codec.incoming_line]

theorem corrupt_print (l : EventLine V) : codec.corrupt (codec.print l) = false := by
  simp [corrupt, codec.parse_print]

end LineCodec

/-- The session as the lines of its file: they read as the queue, and what is
corrupt among them or set aside was injected. -/
structure Reads (codec : LineCodec V) (s : Session V) (rows : List (List Char)) : Prop where
  file : s.outbox.file.getD [] = (unlines rows).map FileCell.char
  newline : ∀ row ∈ rows, '\n' ∉ row
  queue : rows.filterMap codec.event? = s.queue
  injected : ((s.outbox.quarantine ++ rows.filter codec.corrupt).map bare).Perm s.injected

section Steps

variable {codec : LineCodec V} {s : Session V} {rows : List (List Char)}

theorem unlines_append (first second : List (List Char)) :
    unlines (first ++ second) = unlines first ++ unlines second :=
  terminated_append first second

theorem Reads.content (h : Reads codec s rows) {file : List FileCell}
    (hfile : s.outbox.file = some file) : readToString file = some (unlines rows) := by
  have hrows : file = (unlines rows).map FileCell.char := by simpa [hfile] using h.file
  rw [hrows, readToString_map_char]

theorem Reads.newline_stripCr (h : Reads codec s rows) :
    ∀ row ∈ rows.map stripCr, '\n' ∉ row := by
  intro row hrow
  obtain ⟨line, hline, rfl⟩ := List.mem_map.mp hrow
  exact newline_not_mem_stripCr (h.newline line hline)

theorem filterMap_event?_stripCr (rows : List (List Char)) :
    (rows.map stripCr).filterMap codec.event? = rows.filterMap codec.event? := by
  rw [List.filterMap_map]
  apply List.filterMap_congr
  intro line _
  exact codec.event?_stripCr line

theorem map_bare_corrupt_stripCr :
    ((rows.map stripCr).filter codec.corrupt).map bare =
      (rows.filter codec.corrupt).map bare := by
  have hcorrupt : codec.corrupt ∘ stripCr = codec.corrupt := by
    funext line
    exact codec.corrupt_stripCr line
  have hbare : bare ∘ stripCr = bare := by
    funext line
    exact bare_stripCr line
  rw [List.filter_map, List.map_map, hcorrupt, hbare]

/-- What `pending` finds in the lines of the file. -/
theorem Reads.pending (h : Reads codec s rows) :
    ∃ o, s.outbox.pending codec = some (o, s.queue) ∧
      (o.quarantine.map bare).Perm s.injected ∧
      ∃ rows', Reads codec { s with outbox := o } rows' := by
  cases hfile : s.outbox.file with
  | none =>
      have hnil : rows = [] := by
        cases hr : rows with
        | nil => rfl
        | cons row rest =>
            have hempty := h.file
            simp [hfile, hr, unlines] at hempty
      have hqueue := h.queue
      have hinjected := h.injected
      rw [hnil] at hqueue hinjected
      refine ⟨s.outbox, ?_, by simpa using hinjected, rows, h⟩
      rw [← hqueue]
      simp [EventOutbox.pending, hfile]
  | some file =>
      let found := (rows.map stripCr).filter fun line => !isBlankLine line
      have hout : found.filterMap (fun line => (codec.parse line).map codec.incoming) =
          s.queue := by
        rw [← h.queue, ← filterMap_event?_stripCr rows, List.filterMap_filter]
        apply List.filterMap_congr
        intro line _
        cases hblank : isBlankLine line <;> simp [LineCodec.event?, hblank]
      have hquarantined : found.filter (fun line => (codec.parse line).isNone) =
          (rows.map stripCr).filter codec.corrupt := by
        rw [List.filter_filter]
        apply List.filter_congr
        intro line _
        rw [LineCodec.corrupt, Bool.and_comm]
      have hmoved : ((s.outbox.quarantine ++ (rows.map stripCr).filter codec.corrupt).map
          bare).Perm s.injected := by
        rw [List.map_append, map_bare_corrupt_stripCr, ← List.map_append]
        exact h.injected
      have hpending : s.outbox.pending codec =
          some (if ((rows.map stripCr).filter codec.corrupt).isEmpty then (s.outbox, s.queue)
            else
              ({ s.outbox with
                  file := some ((unlines (found.filter
                    fun line => (codec.parse line).isSome)).map FileCell.char)
                  quarantine := s.outbox.quarantine ++
                    (rows.map stripCr).filter codec.corrupt }, s.queue)) := by
        rw [EventOutbox.pending, hfile]
        simp only [h.content hfile, Option.map_some, lines_unlines h.newline]
        rw [show (rows.map stripCr).filter (fun line => !isBlankLine line) = found from rfl,
          hquarantined, hout]
      rw [hpending]
      cases hempty : ((rows.map stripCr).filter codec.corrupt).isEmpty with
      | true =>
          have hnil : (rows.map stripCr).filter codec.corrupt = [] := by
            simpa using hempty
          refine ⟨s.outbox, rfl, ?_, rows, h⟩
          rw [hnil, List.append_nil] at hmoved
          exact hmoved
      | false =>
          refine ⟨_, rfl, hmoved, found.filter fun line => (codec.parse line).isSome, ?_⟩
          constructor
          · rfl
          · intro row hrow
            exact h.newline_stripCr row (List.mem_filter.mp (List.mem_filter.mp hrow).1).1
          · rw [← h.queue, ← filterMap_event?_stripCr rows, List.filterMap_filter,
              List.filterMap_filter]
            apply List.filterMap_congr
            intro line _
            cases hblank : isBlankLine line <;> cases hparse : codec.parse line <;>
              simp [LineCodec.event?, hblank, hparse]
          · have hnone : (found.filter fun line => (codec.parse line).isSome).filter
                codec.corrupt = [] := by
              rw [List.filter_filter, List.filter_eq_nil_iff]
              intro line _
              cases hparse : codec.parse line <;> simp [LineCodec.corrupt, hparse]
            rw [hnone, List.append_nil]
            exact hmoved

theorem Reads.ack (h : Reads codec s rows) (acked : List Nat) :
    ∃ o rows', s.outbox.ack codec acked = some o ∧
      Reads codec { s with
        outbox := o
        queue := s.queue.filter fun ev => !acked.contains ev.sequence } rows' := by
  cases hfile : s.outbox.file with
  | none =>
      have hnil : rows = [] := by
        cases hr : rows with
        | nil => rfl
        | cons row rest =>
            have hempty := h.file
            simp [hfile, hr, unlines] at hempty
      have hqueue := h.queue
      rw [hnil] at hqueue
      refine ⟨s.outbox, rows, by simp [EventOutbox.ack, hfile], ⟨h.file, h.newline, ?_,
        h.injected⟩⟩
      rw [← hqueue, hnil]
      rfl
  | some file =>
      let survivors := (rows.map stripCr).filter fun line =>
        !isBlankLine line && (codec.parse line).all fun l => !acked.contains l.seq
      refine ⟨{ s.outbox with file := some ((unlines survivors).map FileCell.char) },
        survivors, ?_, ⟨rfl, ?_, ?_, ?_⟩⟩
      · rw [EventOutbox.ack, hfile]
        simp only [h.content hfile, Option.map_some, lines_unlines h.newline]
        rfl
      · intro row hrow
        exact h.newline_stripCr row (List.mem_filter.mp hrow).1
      · rw [← h.queue, ← filterMap_event?_stripCr rows, List.filter_filterMap,
          List.filterMap_filter]
        apply List.filterMap_congr
        intro line _
        cases hblank : isBlankLine line <;> cases hparse : codec.parse line <;>
          simp [LineCodec.event?, hblank, hparse, Option.filter, LineCodec.incoming]
      · have hkept : survivors.filter codec.corrupt =
            (rows.map stripCr).filter codec.corrupt := by
          rw [List.filter_filter]
          apply List.filter_congr
          intro line _
          cases hblank : isBlankLine line <;> cases hparse : codec.parse line <;>
            simp [LineCodec.corrupt, hblank, hparse]
        rw [List.map_append, hkept, map_bare_corrupt_stripCr, ← List.map_append]
        exact h.injected

theorem Reads.push (h : Reads codec s rows) {ev : Incoming V} {now : Nat}
    {quotaFull : Bool} {o : EventOutbox}
    (hpush : s.outbox.push codec ev now quotaFull = some o) :
    Reads codec { s with outbox := o, queue := s.queue ++ [ev] }
      (rows ++ [codec.print (codec.line ev now)]) := by
  unfold EventOutbox.push at hpush
  split at hpush
  · cases hpush
  · obtain rfl := Option.some.inj hpush
    constructor
    · rw [unlines_append, List.map_append]
      change s.outbox.file.getD [] ++ _ = _
      rw [h.file]
      simp [unlines]
    · intro row hrow
      rcases List.mem_append.mp hrow with hold | hnew
      · exact h.newline row hold
      · rw [List.mem_singleton.mp hnew]
        exact codec.newline_not_mem _
    · rw [List.filterMap_append, h.queue]
      simp [codec.event?_print]
    · rw [List.filter_append]
      simpa [codec.corrupt_print] using h.injected

/-- A whole corrupt line stands beside the lines that were there. -/
theorem Reads.inject (h : Reads codec s rows) {k : Nat} {line : List FileCell}
    {ended : Bool} (hcorrupt : (SpoolOp.inject (V := V) k line ended).Corrupt codec)
    (hwhole : (SpoolOp.inject (V := V) k line ended).Whole) :
    ∃ rows', Reads codec (spoolStep codec s (.inject k line ended)) rows' := by
  obtain ⟨hended, hsome⟩ := hwhole
  obtain ⟨text, htext⟩ := Option.isSome_iff_exists.mp hsome
  obtain ⟨hnewline, hparse⟩ := hcorrupt
  obtain rfl := eq_map_char htext
  have htextline : '\n' ∉ text := by
    intro hmem
    exact hnewline (List.mem_map_of_mem hmem)
  have hnone := hparse text htext
  refine ⟨rows.take k ++ [text] ++ rows.drop k, ⟨?_, ?_, ?_, ?_⟩⟩
  · have hcells : s.outbox.file.getD [] =
        terminated (.char '\n') (rows.map fun row => row.map FileCell.char) := by
      rw [h.file, unlines, terminated, terminated, List.map_flatMap, List.flatMap_map]
      simp
    have hrows : ∀ row ∈ rows.map fun row => row.map FileCell.char,
        FileCell.char '\n' ∉ row := by
      intro row hrow hmem
      obtain ⟨line, hline, rfl⟩ := List.mem_map.mp hrow
      obtain ⟨c, hc, hnl⟩ := List.mem_map.mp hmem
      exact h.newline line hline (FileCell.char.inj hnl ▸ hc)
    change insertAfter _ k _ (s.outbox.file.getD []) = _
    rw [hcells, insertAfter_terminated hrows, hended]
    rw [unlines_append, unlines_append]
    simp only [unlines, terminated, List.map_append, List.map_flatMap, List.flatMap_map,
      ← List.map_take, ← List.map_drop]
    simp
  · intro row hrow
    rcases List.mem_append.mp hrow with hfirst | hlast
    · rcases List.mem_append.mp hfirst with hfirst | hnew
      · exact h.newline row (List.mem_of_mem_take hfirst)
      · rwa [List.mem_singleton.mp hnew]
    · exact h.newline row (List.mem_of_mem_drop hlast)
  · have hevent : codec.event? text = none := by simp [LineCodec.event?, hnone]
    change _ = s.queue
    rw [← h.queue, List.filterMap_append, List.filterMap_append]
    conv_rhs => rw [← List.take_append_drop k rows, List.filterMap_append]
    simp [hevent]
  · have hnew : [text].filter codec.corrupt = [text].filter fun text => !isBlankLine text := by
      apply List.filter_congr
      intro line hline
      rw [List.mem_singleton.mp hline, LineCodec.corrupt, hnone]
      simp
    have hperm : (s.outbox.quarantine ++ (rows.take k ++ [text] ++ rows.drop k).filter
        codec.corrupt).Perm (s.outbox.quarantine ++ rows.filter codec.corrupt ++
          [text].filter codec.corrupt) := by
      rw [List.filter_append, List.filter_append, List.append_assoc _ (List.filter _ rows)]
      apply List.Perm.append_left
      conv_rhs => rw [← List.take_append_drop k rows, List.filter_append]
      rw [List.append_assoc, List.append_assoc]
      exact List.Perm.append_left _ List.perm_append_comm
    refine (hperm.map bare).trans ?_
    have hinjected : (spoolStep codec s (.inject k (text.map FileCell.char) ended)).injected =
        s.injected ++ ([text].filter fun text => !isBlankLine text).map bare := by
      simp [spoolStep]
    rw [List.map_append, hnew, hinjected]
    exact h.injected.append_right _

theorem Reads.step (h : Reads codec s rows) {op : SpoolOp V} (hcorrupt : op.Corrupt codec)
    (hwhole : op.Whole) : ∃ rows', Reads codec (spoolStep codec s op) rows' := by
  cases op with
  | push ev now quotaFull =>
      cases hpush : s.outbox.push codec ev now quotaFull with
      | none => exact ⟨rows, by simpa [spoolStep, hpush] using h⟩
      | some o => exact ⟨_, by simpa [spoolStep, hpush] using h.push hpush⟩
  | ack acked =>
      obtain ⟨o, rows', hack, hreads⟩ := h.ack acked
      exact ⟨rows', by simpa [spoolStep, hack] using hreads⟩
  | pending =>
      obtain ⟨o, hpending, _, rows', hreads⟩ := h.pending
      exact ⟨rows', by simpa [spoolStep, hpending] using hreads⟩
  | reopen => exact ⟨rows, h⟩
  | inject k line ended => exact h.inject hcorrupt hwhole

end Steps

/-- In every run in which the damaged lines put into the file are text and end
in a newline: `pending` returns the events pushed and not acknowledged, in push
order, with every corrupt line moved to quarantine. -/
theorem event_outbox_queue {codec : LineCodec V} {limit : Nat} {ops : List (SpoolOp V)}
    {s : Session V}
    (h : Runs (During (SpoolStep codec) fun _ op => op.Corrupt codec ∧ op.Whole)
      { outbox := { spoolLimitBytes := limit } } ops s) :
    ∃ o, s.outbox.pending codec = some (o, s.queue) ∧
      (o.quarantine.map bare).Perm s.injected := by
  have hreads : ∃ rows, Reads codec s rows := by
    refine h.invariant (fun s => ∃ rows, Reads codec s rows) ?_ ⟨[], ?_⟩
    · rintro s op s' ⟨rows, hrows⟩ ⟨rfl, hcorrupt, hwhole⟩
      exact hrows.step hcorrupt hwhole
    · constructor <;> simp [unlines]
  obtain ⟨rows, hrows⟩ := hreads
  obtain ⟨o, hpending, hmoved, _⟩ := hrows.pending
  exact ⟨o, hpending, hmoved⟩

def started : Incoming (Option EventType) := ⟨1, .status, none⟩

def finished : Incoming (Option EventType) := ⟨2, .result, none⟩

/-- A line torn after its key. -/
def tornText : List Char := seqKey

def tornBetween : List (SpoolOp (Option EventType)) :=
  [.push started 5 false, .inject 1 (tornText.map FileCell.char) true,
   .push finished 6 false, .ack [1], .pending, .reopen]

theorem event_outbox_queue_torn : ∃ o,
    (tornBetween.foldl (spoolStep lineText) { outbox := { spoolLimitBytes := 0 } }).outbox.pending
      lineText = some (o, [finished]) ∧ (o.quarantine.map bare).Perm [tornText] := by
  have hrun : Runs (During (SpoolStep lineText) fun _ op => op.Corrupt lineText ∧ op.Whole)
      { outbox := { spoolLimitBytes := 0 } } tornBetween
      (tornBetween.foldl (spoolStep lineText) { outbox := { spoolLimitBytes := 0 } }) := by
    refine .next ⟨rfl, trivial, trivial⟩ (.next ⟨rfl, ⟨by decide, ?_⟩, rfl, rfl⟩
      (.next ⟨rfl, trivial, trivial⟩ (.next ⟨rfl, trivial, trivial⟩
      (.next ⟨rfl, trivial, trivial⟩ (.next ⟨rfl, trivial, trivial⟩ (.refl _))))))
    intro text htext
    rw [readToString_map_char] at htext
    rw [← Option.some.inj htext]
    rfl
  exact event_outbox_queue hrun

/-- One line that is not UTF-8 and no event is read any more. -/
theorem unreadable_line_stops_queue : ¬ ∀ (ops : List (SpoolOp (Option EventType)))
    (s : Session (Option EventType)),
    Runs (During (SpoolStep lineText) fun _ op => op.Corrupt lineText)
      { outbox := { spoolLimitBytes := 0 } } ops s →
    ∃ o, s.outbox.pending lineText = some (o, s.queue) := by
  intro h
  have hcorrupt : (SpoolOp.inject 1 [.byte 255] true).Corrupt lineText := by
    refine ⟨by decide, ?_⟩
    intro text htext
    cases htext
  obtain ⟨o, ho⟩ := h [.push started 5 false, .inject 1 [.byte 255] true] _
    (.next ⟨rfl, trivial⟩ (.next ⟨rfl, hcorrupt⟩ (.refl _)))
  have hnone : ((spoolStep lineText (spoolStep lineText { outbox := { spoolLimitBytes := 0 } }
      (.push started 5 false)) (.inject 1 [.byte 255] true)).outbox.pending
      lineText).isNone = true := by decide
  rw [ho] at hnone
  cases hnone

end AgentGrid.Node
