import AgentGrid.Acp.Replies
import AgentGrid.Foundation.Buffered
import AgentGrid.Foundation.Lines

/-!
# Frames of the server

The read loop of `AcpServer::run` takes a frame with a capped `read_until`.  A frame
past the cap is drained with reads of whole blocks, and the last of them may hold
more than the end of that frame: what stands behind it there is gone.
-/

namespace AgentGrid.Acp

open AgentGrid.Foundation

/-- The capacity of the `BufReader`, and the size of the sink. -/
def blockBytes : Nat := 8192

abbrev FrameReader := Buffered UInt8 blockBytes

def newline : UInt8 := 10

def carriageReturn : UInt8 := 13

theorem blockBytes_pos : 0 < blockBytes := by decide

/-! ## The read loop -/

/-- Reads until a block is empty or has a newline. -/
def drain (r : FrameReader) : FrameReader :=
  if (r.read blockBytes).1 = [] ∨ newline ∈ (r.read blockBytes).1 then (r.read blockBytes).2
  else drain (r.read blockBytes).2
termination_by r.pending.length
decreasing_by
  rename_i h
  have hmoved := Buffered.moved_read blockBytes_pos r
  have hpos := List.length_pos_iff.mpr fun hempty => h (.inl hempty)
  have := hmoved.within
  have := hmoved.length
  omega

/-- A frame that the loop takes; `left` is how much was pending before it. -/
structure FrameLine where
  left : Nat
  bytes : List UInt8

theorem drain_le (r : FrameReader) : (drain r).pending.length ≤ r.pending.length := by
  induction r using drain.induct with
  | case1 r h =>
      rw [drain, if_pos h, (Buffered.moved_read blockBytes_pos r).length]
      omega
  | case2 r h ih =>
      rw [drain, if_neg h]
      have := (Buffered.moved_read blockBytes_pos r).length
      omega

theorem readUntil_lt {r : FrameReader} {limit : Nat}
    (h : (r.readUntil newline limit).1 ≠ []) :
    (r.readUntil newline limit).2.pending.length < r.pending.length := by
  have hmoved := (Buffered.readUntil_spec newline blockBytes_pos limit r).2
  have hpos := List.length_pos_iff.mpr h
  have := hmoved.within
  have := hmoved.length
  omega

/-- The frames that the loop takes until the end of the transport. -/
def serve (r : FrameReader) : List FrameLine :=
  let line := (r.readUntil newline (maxLineBytes + 1)).1
  let rest := (r.readUntil newline (maxLineBytes + 1)).2
  if line = [] then []
  else if endsLine line then ⟨r.pending.length, line.dropLast⟩ :: serve rest
  else serve (drain rest)
termination_by r.pending.length
decreasing_by
  · exact readUntil_lt (by assumption)
  · exact Nat.lt_of_le_of_lt (drain_le _) (readUntil_lt (by assumption))

def stripReturn (bytes : List UInt8) : List UInt8 :=
  if bytes.getLast? = some carriageReturn then bytes.dropLast else bytes

/-- The messages of the frames that decode. -/
def dispatched (serde : Serde) (lines : List FrameLine) : List (Nat × Message) :=
  lines.filterMap fun line =>
    (decodeLine serde (stripReturn line.bytes)).map fun msg => (line.left, msg)

/-! ## What it should take -/

/-- Whole frames, and a way in which a transport brings them. -/
structure Inbound where
  frames : List (List UInt8)
  whole : ∀ frame ∈ frames, newline ∉ frame
  chunks : List (List UInt8)
  carried : chunks.flatten = terminated newline frames

def Inbound.reader (inbound : Inbound) : FrameReader := { chunks := inbound.chunks }

/-- The frames of at most the size cap. -/
def withinCap : List (List UInt8) → List FrameLine
  | [] => []
  | frame :: frames =>
      if frame.length ≤ maxLineBytes then
        ⟨(terminated newline (frame :: frames)).length, frame⟩ :: withinCap frames
      else withinCap frames

structure Inbound.Framed (serde : Serde) (inbound : Inbound) : Prop where
  dispatched : dispatched serde (serve inbound.reader) =
    dispatched serde (withinCap inbound.frames)
  taken : serve inbound.reader = withinCap inbound.frames

/-- Behind the newline at `place` the block ends, or goes on with the beginning of a
frame of which more than the cap is still to come. -/
def CleanEnd (blocks : List (List UInt8)) (place : Nat) (frames : List (List UInt8)) : Prop :=
  overhang blocks place = 0 ∨
    ∃ next ∈ frames.head?, maxLineBytes + overhang blocks place < next.length

/-- From `place` on every frame past the cap ends cleanly. -/
def Clean (blocks : List (List UInt8)) : Nat → List (List UInt8) → Prop
  | _, [] => True
  | place, frame :: frames =>
      (maxLineBytes < frame.length → CleanEnd blocks (place + frame.length + 1) frames) ∧
        Clean blocks (place + frame.length + 1) frames

/-! ## One round -/

section Rounds

variable {r : FrameReader} {frame rest : List UInt8}

theorem serve_end (h : r.pending = []) : serve r = [] := by
  have hline := (Buffered.readUntil_spec newline blockBytes_pos (maxLineBytes + 1) r).1
  rw [h] at hline
  rw [serve, if_pos]
  rw [hline]
  rfl

theorem serve_taken (hframe : newline ∉ frame) (hcap : frame.length ≤ maxLineBytes)
    (hpending : r.pending = frame ++ newline :: rest) :
    ∃ r', Buffered.Moved (frame.length + 1) r r' ∧
      serve r = ⟨r.pending.length, frame⟩ :: serve r' := by
  obtain ⟨hline, hmoved⟩ :=
    Buffered.readUntil_spec newline blockBytes_pos (maxLineBytes + 1) r
  rw [hpending, Buffered.cutLine_row hframe (Nat.lt_succ_of_le hcap)] at hline
  refine ⟨(r.readUntil newline (maxLineBytes + 1)).2, ?_, ?_⟩
  · rw [hline, List.length_append] at hmoved
    exact hmoved
  · rw [serve]
    simp only [hline]
    rw [if_neg (by simp), if_pos (by simp [endsLine, newline]), List.dropLast_concat]

theorem length_of_initial {block : List UInt8} (hframe : newline ∉ frame)
    (h : block <+: frame ++ newline :: rest) :
    if newline ∈ block then frame.length + 1 ≤ block.length else block.length ≤ frame.length := by
  have htake := List.prefix_iff_eq_take.mp h
  split
  · rename_i hmem
    by_contra hshort
    rw [htake, List.take_append_of_le_length (by omega)] at hmem
    exact hframe (List.mem_of_mem_take hmem)
  · rename_i hmem
    by_contra hlong
    apply hmem
    obtain ⟨k, hk⟩ : ∃ k, block.length = frame.length + (k + 1) :=
      ⟨block.length - frame.length - 1, by omega⟩
    rw [htake, hk, List.take_length_add_append, List.take_succ_cons]
    simp

/-- The block with the newline of the frame is the last one that is drained. -/
theorem moved_drain (hframe : newline ∉ frame) (hpending : r.pending = frame ++ newline :: rest) :
    Buffered.Moved (frame.length + 1 + overhang r.ahead (frame.length + 1)) r (drain r) := by
  induction r using drain.induct generalizing frame with
  | case1 r h =>
      have hread := Buffered.moved_read blockBytes_pos r
      have hprefix := length_of_initial hframe (hpending ▸ Buffered.read_initial r)
      have hmem : newline ∈ (r.read blockBytes).1 := by
        refine h.resolve_left fun hempty => ?_
        rw [Buffered.read_eq_nil blockBytes_pos hempty] at hpending
        simp at hpending
      rw [if_pos hmem] at hprefix
      rw [drain, if_pos h, Buffered.overhang_read blockBytes_pos r (Nat.succ_pos _) hprefix,
        Nat.add_sub_cancel' hprefix]
      exact hread
  | case2 r h ih =>
      have hread := Buffered.moved_read blockBytes_pos r
      have hprefix := length_of_initial hframe (hpending ▸ Buffered.read_initial r)
      rw [if_neg fun hmem => h (.inr hmem)] at hprefix
      have htail := hread.pending
      rw [hpending, List.drop_append_of_le_length hprefix] at htail
      have hdrain := ih (fun hmem => hframe (List.mem_of_mem_drop hmem)) htail
      have hplace : (r.read blockBytes).1.length +
          ((frame.drop (r.read blockBytes).1.length).length + 1) = frame.length + 1 := by
        rw [List.length_drop]
        omega
      rw [hread.overhang _ (Nat.succ_pos _), hplace] at hdrain
      have hall := hread.trans hdrain
      rw [← Nat.add_assoc, hplace] at hall
      rw [drain, if_neg h]
      exact hall

theorem serve_skipped (hframe : newline ∉ frame) (hcap : maxLineBytes < frame.length)
    (hpending : r.pending = frame ++ newline :: rest) :
    ∃ r', Buffered.Moved (frame.length + 1 + overhang r.ahead (frame.length + 1)) r r' ∧
      serve r = serve r' := by
  obtain ⟨head, tail, rfl, hlength⟩ : ∃ head tail, frame = head ++ tail ∧
      head.length = maxLineBytes + 1 :=
    ⟨_, _, (List.take_append_drop (maxLineBytes + 1) frame).symm,
      List.length_take_of_le hcap⟩
  have hhead : newline ∉ head := fun hmem => hframe (List.mem_append_left _ hmem)
  have htail : newline ∉ tail := fun hmem => hframe (List.mem_append_right _ hmem)
  obtain ⟨hline, hmoved⟩ :=
    Buffered.readUntil_spec newline blockBytes_pos (maxLineBytes + 1) r
  rw [hpending, List.append_assoc, Buffered.cutLine_append hhead (Nat.le_of_eq hlength), hlength,
    Nat.sub_self, cutLine, List.append_nil] at hline
  rw [hline] at hmoved
  have hrest := hmoved.pending
  rw [hpending, List.append_assoc, List.drop_left] at hrest
  have hdrain := moved_drain htail hrest
  refine ⟨drain (r.readUntil newline (maxLineBytes + 1)).2, ?_, ?_⟩
  · have hplace : head.length + (tail.length + 1) = (head ++ tail).length + 1 := by
      rw [List.length_append, Nat.add_assoc]
    rw [hmoved.overhang _ (Nat.succ_pos _), hplace] at hdrain
    have hall := hmoved.trans hdrain
    rw [← Nat.add_assoc, hplace] at hall
    exact hall
  · have hne : head ≠ [] := List.length_pos_iff.mp (by omega)
    have hends : endsLine head = false := by
      cases hlast : endsLine head with
      | false => rfl
      | true =>
          rw [endsLine, beq_iff_eq] at hlast
          exact absurd (List.mem_of_getLast? hlast) hhead
    rw [serve]
    simp only [hline]
    rw [if_neg hne, hends, if_neg Bool.false_ne_true]

end Rounds

/-! ## All rounds -/

theorem left_le_pending {r : FrameReader} {line : FrameLine} (h : line ∈ serve r) :
    line.left ≤ r.pending.length := by
  induction r using serve.induct with
  | case1 r line' hempty =>
      rw [serve, if_pos hempty] at h
      cases h
  | case2 r line' rest hsome hends ih =>
      rw [serve, if_neg hsome, if_pos hends] at h
      rcases List.mem_cons.mp h with rfl | h
      · exact Nat.le_refl _
      · exact (ih h).trans (Nat.le_of_lt (readUntil_lt hsome))
  | case3 r line' rest hsome hends ih =>
      rw [serve, if_neg hsome, if_neg hends] at h
      exact (ih h).trans ((drain_le _).trans (Nat.le_of_lt (readUntil_lt hsome)))

theorem left_le_terminated {frames : List (List UInt8)} {line : FrameLine}
    (h : line ∈ withinCap frames) : line.left ≤ (terminated newline frames).length := by
  induction frames with
  | nil => cases h
  | cons frame frames ih =>
      have hlength : (terminated newline frames).length ≤
          (terminated newline (frame :: frames)).length := by
        rw [terminated_cons, List.length_append, List.length_cons]
        omega
      unfold withinCap at h
      split at h
      · rcases List.mem_cons.mp h with rfl | h
        · exact Nat.le_refl _
        · exact (ih h).trans hlength
      · exact (ih h).trans hlength

theorem clean_moved {blocks blocks' : List (List UInt8)} {n : Nat}
    (h : ∀ k, 0 < k → overhang blocks' k = overhang blocks (n + k)) (place : Nat)
    (frames : List (List UInt8)) :
    Clean blocks' place frames ↔ Clean blocks (n + place) frames := by
  induction frames generalizing place with
  | nil => rfl
  | cons frame frames ih =>
      have hplace : n + (place + frame.length + 1) = n + place + frame.length + 1 := by omega
      rw [Clean, Clean, ih, CleanEnd, CleanEnd, h _ (Nat.succ_pos _), hplace]

section Overrun

variable {next : List UInt8} {frames : List (List UInt8)} {r : FrameReader} {excess : Nat}

/-- What was drained of the next frames is missed, or its remainder is taken. -/
theorem serve_ne (hnext : newline ∉ next) (hover : 0 < excess) (hblock : excess < blockBytes)
    (hshort : next.length ≤ maxLineBytes + excess)
    (hpending : r.pending = (terminated newline (next :: frames)).drop excess)
    (hwithin : excess ≤ (terminated newline (next :: frames)).length) :
    serve r ≠ withinCap (next :: frames) := by
  intro hsame
  have hlength : r.pending.length = (terminated newline (next :: frames)).length - excess := by
    rw [hpending, List.length_drop]
  by_cases hcap : next.length ≤ maxLineBytes
  · rw [withinCap, if_pos hcap] at hsame
    have hleft := left_le_pending (hsame ▸ List.mem_cons_self)
    simp only at hleft
    omega
  · have hsize : blockBytes ≤ maxLineBytes := by decide
    rw [withinCap, if_neg hcap] at hsame
    rw [terminated_cons, List.drop_append_of_le_length (by omega)] at hpending
    obtain ⟨r', -, hserve⟩ := serve_taken (fun hmem => hnext (List.mem_of_mem_drop hmem))
      (by rw [List.length_drop]; omega) hpending
    rw [hserve] at hsame
    have hleft := left_le_terminated (hsame ▸ List.mem_cons_self)
    rw [terminated_cons, List.length_append, List.length_cons] at hlength
    simp only at hleft
    omega

/-- The remainder of a frame past the cap is past the cap. -/
theorem withinCap_drop (h : maxLineBytes + excess < next.length) :
    withinCap (next.drop excess :: frames) = withinCap (next :: frames) := by
  rw [withinCap, withinCap, if_neg (by rw [List.length_drop]; omega), if_neg (by omega)]

theorem clean_drop (h : maxLineBytes + excess < next.length) (blocks : List (List UInt8))
    (place : Nat) :
    Clean blocks (place + excess) (next.drop excess :: frames) ↔
      Clean blocks place (next :: frames) := by
  have hplace : place + excess + (next.drop excess).length + 1 = place + next.length + 1 := by
    rw [List.length_drop]
    omega
  have hcap : maxLineBytes < (next.drop excess).length ↔ maxLineBytes < next.length := by
    rw [List.length_drop]
    omega
  rw [Clean, Clean, hplace, hcap]

end Overrun

/-- The frames that the loop takes are those within the cap exactly if those past it
end cleanly. -/
theorem serve_iff {frames : List (List UInt8)} (hwhole : ∀ frame ∈ frames, newline ∉ frame)
    {r : FrameReader} (hpending : r.pending = terminated newline frames) :
    serve r = withinCap frames ↔ Clean r.ahead 0 frames := by
  induction hn : frames.length generalizing frames r with
  | zero =>
      obtain rfl := List.length_eq_zero_iff.mp hn
      rw [serve_end hpending]
      exact ⟨fun _ => trivial, fun _ => rfl⟩
  | succ n ih =>
      obtain ⟨frame, frames, rfl⟩ := List.exists_cons_of_length_eq_add_one hn
      have hcount : frames.length = n := Nat.succ.inj hn
      have hframe := hwhole frame List.mem_cons_self
      have hframes := fun f hf => hwhole f (List.mem_cons_of_mem frame hf)
      rw [terminated_cons] at hpending
      have hrest : ∀ m, r.pending.drop (frame.length + 1 + m) =
          (terminated newline frames).drop m := by
        intro m
        rw [hpending, Nat.add_assoc, List.drop_length_add_append, Nat.add_comm 1,
          List.drop_succ_cons]
      rw [withinCap, Clean, Nat.zero_add]
      by_cases hcap : frame.length ≤ maxLineBytes
      · obtain ⟨r', hmoved, hserve⟩ := serve_taken hframe hcap hpending
        have hpending' : r'.pending = terminated newline frames := by
          rw [hmoved.pending]
          exact hrest 0
        rw [if_pos hcap, hserve, hpending, terminated_cons, List.cons_inj_right,
          ih hframes hpending' hcount, clean_moved hmoved.overhang, Nat.add_zero]
        exact ⟨fun h => ⟨fun hlong => absurd hlong (Nat.not_lt.mpr hcap), h⟩, And.right⟩
      · have hlong := Nat.lt_of_not_le hcap
        obtain ⟨r', hmoved, hserve⟩ := serve_skipped hframe hlong hpending
        generalize hover : overhang r.ahead (frame.length + 1) = excess at hmoved
        have hpending' : r'.pending = (terminated newline frames).drop excess := by
          rw [hmoved.pending, hrest]
        have hwithin : excess ≤ (terminated newline frames).length := by
          have h := hmoved.within
          rw [hpending, List.length_append, List.length_cons] at h
          omega
        have hblock : excess < blockBytes := by
          rw [← hover]
          exact Buffered.overhang_ahead_lt blockBytes_pos r (Nat.succ_pos _)
        rw [if_neg hcap, hserve, CleanEnd, hover]
        rcases Nat.eq_zero_or_pos excess with rfl | hpos
        · rw [ih hframes hpending' hcount, clean_moved hmoved.overhang]
          exact ⟨fun h => ⟨fun _ => .inl rfl, h⟩, And.right⟩
        · cases frames with
          | nil => exact absurd hwithin (Nat.not_le.mpr hpos)
          | cons next last =>
              by_cases hnext : maxLineBytes + excess < next.length
              · rw [terminated_cons, List.drop_append_of_le_length (by omega),
                  ← terminated_cons] at hpending'
                have hwhole' : ∀ f ∈ next.drop excess :: last, newline ∉ f := by
                  intro f hf
                  rcases List.mem_cons.mp hf with rfl | hf
                  · exact fun hmem => hframes next List.mem_cons_self (List.mem_of_mem_drop hmem)
                  · exact hframes f (List.mem_cons_of_mem next hf)
                rw [← withinCap_drop hnext, ih hwhole' hpending' hcount,
                  clean_moved hmoved.overhang, Nat.add_zero, clean_drop hnext]
                exact ⟨fun h => ⟨fun _ => .inr ⟨next, rfl, hnext⟩, h⟩, And.right⟩
              · have hne := serve_ne (hframes next List.mem_cons_self) hpos hblock
                  (Nat.not_lt.mp hnext) hpending' hwithin
                refine ⟨fun h => absurd h hne, fun h => ?_⟩
                rcases h.1 hlong with hzero | ⟨next', hhead, hnext'⟩
                · exact absurd hzero hpos.ne'
                · cases hhead
                  exact absurd hnext' hnext

theorem Inbound.framed_iff (serde : Serde) (inbound : Inbound) :
    inbound.Framed serde ↔ Clean (blocks blockBytes inbound.chunks) 0 inbound.frames := by
  have hpending : inbound.reader.pending = terminated newline inbound.frames := inbound.carried
  have hahead : ∀ k, 0 < k → overhang inbound.reader.ahead k =
      overhang (blocks blockBytes inbound.chunks) (0 + k) := by
    intro k hk
    rw [Nat.zero_add]
    exact overhang_nil_cons _ hk
  have hserve := serve_iff inbound.whole hpending
  rw [clean_moved hahead] at hserve
  rw [← hserve]
  refine ⟨Framed.taken, fun h => ⟨?_, h⟩⟩
  rw [h]

/-- A frame of `n` letters; its newline comes together with the next frame. -/
def glued (n : Nat) : Inbound where
  frames := [List.replicate n 97, [123, 125]]
  whole := by
    intro frame hframe
    simp only [List.mem_cons, List.not_mem_nil, or_false] at hframe
    rcases hframe with rfl | rfl
    · exact fun hmem => absurd (List.eq_of_mem_replicate hmem) (by decide)
    · decide
  chunks := [List.replicate n 97, [newline, 123, 125, newline]]
  carried := by simp

theorem glued_not_clean {n : Nat} (h : maxLineBytes < n) :
    ¬ Clean (glued n).reader.ahead 0 (glued n).frames := by
  intro hclean
  have hover : overhang (glued n).reader.ahead
      (0 + (List.replicate n (97 : UInt8)).length + 1) = 3 := by
    rw [Nat.zero_add]
    refine (overhang_nil_cons _ (Nat.succ_pos _)).trans ?_
    refine (overhang_blocks_cons blockBytes_pos _ _ Nat.one_pos).trans ?_
    simp [blocks, receive, overhang, blockBytes]
  have hlong : maxLineBytes < (List.replicate n (97 : UInt8)).length := by
    rw [List.length_replicate]
    exact h
  rcases hclean.1 hlong with hzero | ⟨next, hhead, hnext⟩
  · rw [hover] at hzero
    cases hzero
  · cases hhead
    exact absurd hnext (Nat.not_lt.mpr (Nat.le_add_right_of_le (by decide)))

/-- The frame after one past the cap is lost. -/
theorem next_frame_lost : ¬ ∀ (serde : Serde) (inbound : Inbound), inbound.Framed serde := by
  intro h
  have htaken := (h ⟨fun _ => none, fun _ => none⟩ (glued (maxLineBytes + 1))).taken
  have hpending : (glued (maxLineBytes + 1)).reader.pending =
      terminated newline (glued (maxLineBytes + 1)).frames := (glued (maxLineBytes + 1)).carried
  exact glued_not_clean (Nat.lt_succ_self _)
    ((serve_iff (glued (maxLineBytes + 1)).whole hpending).mp htaken)

end AgentGrid.Acp
