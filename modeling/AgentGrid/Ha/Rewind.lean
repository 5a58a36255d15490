import AgentGrid.Ha.LogAgreement
import Mathlib.Algebra.Ring.Nat

/-!
# Undoing a leadership

One leadership on a database file, cut at the awaits of its writers and of the
demotion that ends it.  A write transaction commits its rows with the next number
and holds the write gate until its changeset was published; acknowledgements of a
data quorum arrive at any time.  `rewind_to` reads the number of the database,
collects the inverses under the lock of the buffer, and applies them behind the
write gate.
-/

namespace AgentGrid.Ha

open AgentGrid.Foundation

/-- The permit of the write gate. -/
inductive Permit (κ : Type)
  | free
  /-- Held by a commit whose changeset is not in the rewind buffer yet. -/
  | committed (c : κ)
  /-- Held by `publish` until it returns. -/
  | publishing
deriving DecidableEq

inductive RewindRefusal
  | evicted (changeset : Nat)
  | notRetained
  | moved (source now : Nat)
  | applyFailed
deriving DecidableEq

/-- Where `rewind_to` stands. -/
inductive RewindPhase (κ : Type)
  | idle
  | reading (hint here : Nat)
  | undoing (here target : Nat) (inverted : List κ)
  /-- The database is not above the target. -/
  | kept (here target : Nat)
  | rewound (target : Nat)
  | refused (why : RewindRefusal)
deriving DecidableEq

/-- A leadership from a new replicator on.  `stateOf` and `changeOf` record the
tables and the changeset of each number. -/
structure Leadership (δ κ : Type) where
  contents : δ
  replSeq : Nat
  lastReplicated : Nat := 0
  rewind : RewindBuffer κ := {}
  permit : Permit κ := .free
  phase : RewindPhase κ := .idle
  stateOf : Nat → Option δ
  changeOf : Nat → Option κ := fun _ => none

inductive RewindOp (κ : Type)
  | commit (c : κ)
  | publish
  | published
  | noteReplicated (seq : Nat)
  | rewindTo (hint : Nat)
  | collect
  /-- `sqlite` is false when a statement or the commit fails. -/
  | applyRewind (sqlite : Bool)

section Steps

variable {δ κ : Type} (S : Setup δ κ)

/-- The demoted gate refuses the writes that come after the rewind. -/
def Leadership.writes (s : Leadership δ κ) : Bool :=
  match s.phase with
  | .rewound _ => false
  | _ => true

/-- `rewind_to` under the lock of the buffer. -/
def Leadership.collect (s : Leadership δ κ) (hint here : Nat) : RewindPhase κ :=
  let target := max hint s.lastReplicated
  if here ≤ target then .kept here target
  else if !s.rewind.canRewindTo target then .refused (.evicted (s.rewind.floor.getD target))
  else
    match RewindBuffer.undoing S.sql target here s.rewind.entries.reverse with
    | none => .refused .notRetained
    | some (expect, inverted) =>
        if expect ≠ target then .refused .notRetained else .undoing here target inverted

/-- `apply_rewind`, with the permit in hand. -/
def Leadership.applyRewind (s : Leadership δ κ) (here target : Nat) (inverted : List κ)
    (sqlite : Bool) : Leadership δ κ :=
  if s.replSeq ≠ here then { s with phase := .refused (.moved here s.replSeq) }
  else
    match S.sql.applyAll s.contents inverted with
    | none => { s with phase := .refused .applyFailed }
    | some contents =>
        if sqlite then
          { s with contents := contents, replSeq := target, phase := .rewound target }
        else { s with phase := .refused .applyFailed }

def rewindStep (s : Leadership δ κ) : RewindOp κ → Option (Leadership δ κ)
  | .commit c =>
      match s.permit, S.sql.apply s.contents c with
      | .free, some contents =>
          if s.writes then
            some { s with
              contents := contents
              replSeq := s.replSeq + 1
              permit := .committed c
              stateOf := Function.update s.stateOf (s.replSeq + 1) (some contents)
              changeOf := Function.update s.changeOf (s.replSeq + 1) (some c) }
          else none
      | _, _ => none
  | .publish =>
      match s.permit with
      | .committed c =>
          some { s with rewind := s.rewind.push S.sql s.replSeq c, permit := .publishing }
      | _ => none
  | .published =>
      match s.permit with
      | .publishing => some { s with permit := .free }
      | _ => none
  | .noteReplicated seq =>
      some { s with
        rewind := s.rewind.trim S.sql seq
        lastReplicated := max s.lastReplicated seq }
  | .rewindTo hint =>
      match s.phase with
      | .idle => some { s with phase := .reading hint s.replSeq }
      | _ => none
  | .collect =>
      match s.phase with
      | .reading hint here => some { s with phase := s.collect S hint here }
      | _ => none
  | .applyRewind sqlite =>
      match s.phase, s.permit with
      | .undoing here target inverted, .free => some (s.applyRewind S here target inverted sqlite)
      | _, _ => none

def RewindStep (s : Leadership δ κ) (op : RewindOp κ) (s' : Leadership δ κ) : Prop :=
  rewindStep S s op = some s'

/-- A new replicator on a database, with any watermark. -/
structure Leadership.Fresh (s : Leadership δ κ) : Prop where
  stateOf : s.stateOf = fun n => if n = s.replSeq then some s.contents else none
  changeOf : s.changeOf = fun _ => none
  rewind : s.rewind = {}
  permit : s.permit = .free
  phase : s.phase = .idle

/-- The number of the newest changeset that was published. -/
def Leadership.newest (s : Leadership δ κ) : Nat :=
  match s.permit with
  | .committed _ => s.replSeq - 1
  | _ => s.replSeq

def Leadership.retained (s : Leadership δ κ) : List Nat := s.rewind.entries.map Prod.fst

/-! ## The buffer -/

namespace RewindBuffer

/-- The byte count is the sum over the entries, which are numbered one after the
other up to `newest`; what was evicted has a smaller number. -/
structure Sound (newest : Nat) (buf : RewindBuffer κ) : Prop where
  bytes : buf.bytes = (buf.entries.map fun e => S.sql.bytes e.2).sum
  numbers : ∃ first, buf.entries.map Prod.fst = List.range' first buf.entries.length ∧
    first + buf.entries.length = newest + 1 ∧ ∀ f ∈ buf.floor, f < first

variable {S} {newest : Nat} {buf : RewindBuffer κ}

theorem sound_empty (newest : Nat) : Sound S newest ({} : RewindBuffer κ) :=
  ⟨rfl, newest + 1, rfl, rfl, by simp⟩

theorem sound_evict {entries : List (Nat × κ)} {bytes : Nat} {floor : Option Nat} {first : Nat}
    (hbytes : bytes = (entries.map fun e => S.sql.bytes e.2).sum)
    (hnumbers : entries.map Prod.fst = List.range' first entries.length)
    (hnewest : first + entries.length = newest + 1) (hfloor : ∀ f ∈ floor, f < first) :
    Sound S newest (evict S.sql entries bytes floor) := by
  induction entries generalizing bytes floor first with
  | nil => exact ⟨hbytes, first, hnumbers, hnewest, hfloor⟩
  | cons e rest ih =>
      obtain ⟨seq, c⟩ := e
      rw [List.map_cons, List.length_cons, List.range'_succ] at hnumbers
      obtain ⟨rfl, hrest⟩ := List.cons.inj hnumbers
      unfold evict
      split
      · refine ih ?_ hrest ?_ ?_
        · rw [hbytes, List.map_cons, List.sum_cons, Nat.add_sub_cancel_left]
        · rw [List.length_cons] at hnewest
          omega
        · intro f hf
          obtain rfl := Option.some.inj hf
          exact Nat.lt_succ_self _
      · exact ⟨hbytes, seq, by rw [List.map_cons, List.length_cons, List.range'_succ, hrest],
          hnewest, hfloor⟩

theorem Sound.push (h : Sound S newest buf) (c : κ) :
    Sound S (newest + 1) (buf.push S.sql (newest + 1) c) := by
  obtain ⟨hbytes, first, hnumbers, hnewest, hfloor⟩ := h
  refine sound_evict ?_ ?_ ?_ hfloor
  · simp [hbytes]
  · rw [List.map_append, List.length_append, hnumbers, List.length_singleton, List.range'_concat,
      Nat.one_mul, hnewest]
    rfl
  · rw [List.length_append, List.length_singleton]
    omega

theorem Sound.trim (h : Sound S newest buf) (replicated : Nat) :
    Sound S newest (buf.trim S.sql replicated) := by
  obtain ⟨entries, bytes, floor⟩ := buf
  obtain ⟨hbytes, first, hnumbers, hnewest, hfloor⟩ := h
  dsimp only at hbytes hnumbers hnewest hfloor
  unfold RewindBuffer.trim
  dsimp only
  induction entries generalizing bytes first with
  | nil => exact ⟨hbytes, first, hnumbers, hnewest, hfloor⟩
  | cons e rest ih =>
      obtain ⟨seq, c⟩ := e
      rw [List.map_cons, List.length_cons, List.range'_succ] at hnumbers
      obtain ⟨rfl, hrest⟩ := List.cons.inj hnumbers
      unfold trimEntries
      split
      · exact ⟨hbytes, seq, by rw [List.map_cons, List.length_cons, List.range'_succ, hrest],
          hnewest, hfloor⟩
      · refine ih _ ?_ (seq + 1) hrest ?_ ?_
        · rw [hbytes, List.map_cons, List.sum_cons, Nat.add_sub_cancel_left]
        · rw [List.length_cons] at hnewest
          omega
        · exact fun f hf => (hfloor f hf).trans (Nat.lt_succ_self _)

end RewindBuffer

/-! ## Collecting the inverses -/

section Collecting

variable {S} {entries newest : List (Nat × κ)} {n target : Nat}

theorem descends_of_numbers {first : Nat}
    (h : entries.map Prod.fst = List.range' first entries.length) :
    Descends (first + entries.length - 1) entries.reverse := by
  induction entries using List.reverseRecOn with
  | nil => trivial
  | append_singleton entries e ih =>
      rw [List.map_append, List.length_append, List.length_singleton, List.range'_concat,
        Nat.one_mul] at h
      obtain ⟨hentries, hlast⟩ := List.append_inj' h rfl
      rw [List.reverse_append, List.length_append]
      exact ⟨(List.cons.inj hlast).1, ih hentries⟩

theorem numbers_of_descends (h : Descends n newest) (hlen : newest.length ≤ n) :
    newest.reverse.map Prod.fst = List.range' (n + 1 - newest.length) newest.length := by
  induction newest generalizing n with
  | nil => rfl
  | cons e older ih =>
      obtain ⟨hfirst, holder⟩ := h
      rw [List.length_cons] at hlen ⊢
      have hstart : n - 1 + 1 - older.length = n + 1 - (older.length + 1) := by omega
      have hlast : n + 1 - (older.length + 1) + 1 * older.length = n := by omega
      rw [List.reverse_cons, List.map_append, ih holder (by omega), List.range'_concat, hstart,
        hlast, ← hfirst]
      rfl

/-- Nothing that is needed is missing. -/
theorem undoing_eq (h : Descends n entries) (htarget : target ≤ n)
    (hlen : n - target ≤ entries.length) :
    RewindBuffer.undoing S.sql target n entries =
      some (target, (entries.take (n - target)).map fun e => S.sql.invert e.2) := by
  induction entries generalizing n with
  | nil =>
      obtain rfl : n = target := by
        rw [List.length_nil] at hlen
        omega
      simp [RewindBuffer.undoing]
  | cons e older ih =>
      obtain ⟨seq, c⟩ := e
      obtain ⟨hseq, holder⟩ := h
      dsimp only at hseq
      unfold RewindBuffer.undoing
      split
      · rename_i hle
        have hsame : n = target := by omega
        rw [hsame, Nat.sub_self]
        rfl
      · rename_i hlt
        rw [List.length_cons] at hlen
        have hstep : n - target = n - 1 - target + 1 := by omega
        rw [if_neg (not_not.mpr hseq), ih holder (by omega) (by omega), hstep]
        rfl

end Collecting

/-! ## A leadership and its rewind -/

def Leadership.Stands (s : Leadership δ κ) : Prop :=
  match s.phase with
  | .reading _ here => here ≤ s.replSeq
  | .undoing here target inverted =>
      target < here ∧ here ≤ s.replSeq ∧
        ∃ cs : List κ, (List.range' (target + 1) (here - target)).map s.changeOf = cs.map some ∧
          inverted = cs.reverse.map S.sql.invert
  | .rewound target => s.replSeq = target ∧ s.permit = .free
  | .idle | .kept _ _ | .refused _ => True

/-- The buffer holds the newest changesets, and each recorded changeset leads
from the tables of one number to those of the next. -/
structure Leadership.Sound (s : Leadership δ κ) : Prop where
  buffer : ∃ newest, s.rewind.Sound S newest ∧ (s.writes = true → newest = s.newest)
  entries : ∀ e ∈ s.rewind.entries, s.changeOf e.1 = some e.2
  links : ∀ n c, s.changeOf (n + 1) = some c → ∃ x y, s.stateOf n = some x ∧
    s.stateOf (n + 1) = some y ∧ S.sql.apply x c = some y
  now : s.stateOf s.replSeq = some s.contents
  above : s.writes = true → ∀ n, s.replSeq < n → s.changeOf n = none
  permit : ∀ c, s.permit = .committed c → s.changeOf s.replSeq = some c ∧ 1 ≤ s.replSeq
  stands : s.Stands S

section Invariant

variable {S} {s s' : Leadership δ κ}

theorem Leadership.Fresh.sound (h : s.Fresh) : s.Sound S := by
  obtain ⟨hstate, hchange, hrewind, hpermit, hphase⟩ := h
  refine ⟨⟨s.replSeq, ?_, ?_⟩, ?_, ?_, ?_, ?_, ?_, ?_⟩
  · rw [hrewind]
    exact RewindBuffer.sound_empty _
  · intro _
    rw [Leadership.newest, hpermit]
  · rw [hrewind]
    nofun
  · intro n c hc
    rw [hchange] at hc
    cases hc
  · rw [hstate]
    exact if_pos rfl
  · intro _ n _
    rw [hchange]
  · intro c hc
    rw [hpermit] at hc
    cases hc
  · rw [Leadership.Stands, hphase]
    trivial

/-- The changesets of consecutive numbers lead from one state to the other. -/
theorem Leadership.Sound.leads (h : s.Sound S) {k t : Nat} {cs : List κ} {y : δ}
    (hcs : (List.range' (t + 1) k).map s.changeOf = cs.map some)
    (hy : s.stateOf (t + k) = some y) :
    ∃ x, s.stateOf t = some x ∧ S.sql.applyAll x cs = some y := by
  induction k generalizing t cs with
  | zero =>
      obtain rfl : cs = [] := by simpa using hcs.symm
      exact ⟨y, hy, rfl⟩
  | succ k ih =>
      rw [List.range'_succ, List.map_cons] at hcs
      cases cs with
      | nil => cases hcs
      | cons c cs =>
          obtain ⟨hc, hrest⟩ := List.cons.inj hcs
          obtain ⟨z, hz, hlater⟩ := ih hrest (by rw [← hy]; congr 1; omega)
          obtain ⟨x, z', hx, hz', happly⟩ := h.links t c hc
          obtain rfl := Option.some.inj (hz'.symm.trans hz)
          exact ⟨x, hx, (S.sql.applyAll_cons happly cs).trans hlater⟩

theorem Leadership.Sound.commit (h : s.Sound S) {c : κ} {contents : δ} (hpermit : s.permit = .free)
    (hwrites : s.writes = true) (happly : S.sql.apply s.contents c = some contents) :
    Leadership.Sound S { s with
      contents := contents
      replSeq := s.replSeq + 1
      permit := .committed c
      stateOf := Function.update s.stateOf (s.replSeq + 1) (some contents)
      changeOf := Function.update s.changeOf (s.replSeq + 1) (some c) } := by
  have hchange : ∀ n, n ≤ s.replSeq →
      Function.update s.changeOf (s.replSeq + 1) (some c) n = s.changeOf n := fun n hn =>
    Function.update_of_ne (by omega) _ _
  have hstate : ∀ n, n ≤ s.replSeq →
      Function.update s.stateOf (s.replSeq + 1) (some contents) n = s.stateOf n := fun n hn =>
    Function.update_of_ne (by omega) _ _
  have hbelow : ∀ n c', s.changeOf n = some c' → n ≤ s.replSeq := by
    intro n c' hc'
    by_contra hlt
    rw [h.above hwrites n (by omega)] at hc'
    cases hc'
  refine ⟨?_, ?_, ?_, ?_, ?_, ?_, ?_⟩
  · obtain ⟨newest, hsound, hnewest⟩ := h.buffer
    refine ⟨newest, hsound, fun _ => ?_⟩
    rw [hnewest hwrites, Leadership.newest, hpermit]
    rfl
  · intro e he
    have hold := h.entries e he
    exact (hchange e.1 (hbelow _ _ hold)).trans hold
  · intro n c' hc'
    by_cases hn : n = s.replSeq
    · subst hn
      dsimp only at hc' ⊢
      rw [Function.update_self] at hc'
      obtain rfl := Option.some.inj hc'
      exact ⟨s.contents, contents, (hstate _ le_rfl).trans h.now, Function.update_self .., happly⟩
    · dsimp only at hc' ⊢
      rw [Function.update_of_ne (by omega)] at hc'
      have hle := hbelow _ _ hc'
      obtain ⟨x, y, hx, hy, hxy⟩ := h.links n c' hc'
      exact ⟨x, y, (hstate n (by omega)).trans hx, (hstate _ hle).trans hy, hxy⟩
  · exact Function.update_self ..
  · intro _ n hn
    dsimp only at hn ⊢
    rw [Function.update_of_ne (by omega)]
    exact h.above hwrites n (by omega)
  · intro c' hc'
    cases hc'
    exact ⟨Function.update_self .., Nat.le_add_left 1 _⟩
  · have hstands := h.stands
    unfold Leadership.Stands at hstands ⊢
    dsimp only
    split at hstands
    · exact hstands.trans (Nat.le_succ _)
    · obtain ⟨hlt, hle, cs, hcs, hinverted⟩ := hstands
      refine ⟨hlt, hle.trans (Nat.le_succ _), cs, ?_, hinverted⟩
      rw [← hcs]
      refine List.map_congr_left fun n hn => hchange n ?_
      rw [List.mem_range'_1] at hn
      omega
    · rename_i hphase
      rw [Leadership.writes, hphase] at hwrites
      cases hwrites
    all_goals trivial

theorem Leadership.Sound.publish (h : s.Sound S) {c : κ} (hpermit : s.permit = .committed c) :
    Leadership.Sound S
      { s with rewind := s.rewind.push S.sql s.replSeq c, permit := .publishing } := by
  have hstands := h.stands
  obtain ⟨hchange, hpos⟩ := h.permit c hpermit
  have hwrites : s.writes = true := by
    unfold Leadership.writes
    unfold Leadership.Stands at hstands
    split
    · rename_i hphase
      rw [hphase, hpermit] at hstands
      cases hstands.2
    · rfl
  obtain ⟨newest, hsound, hnewest⟩ := h.buffer
  have htop : newest + 1 = s.replSeq := by
    rw [hnewest hwrites, Leadership.newest, hpermit]
    exact Nat.sub_add_cancel hpos
  refine ⟨⟨newest + 1, htop ▸ hsound.push c, fun _ => htop⟩, ?_, h.links, h.now, h.above, nofun, ?_⟩
  · intro e he
    have hin := (@evict_suffix _ _ S (s.rewind.entries ++ [(s.replSeq, c)]) _ _).subset he
    rcases List.mem_append.mp hin with hold | hlast
    · exact h.entries e hold
    · rw [List.mem_singleton.mp hlast]
      exact hchange
  · unfold Leadership.Stands at hstands ⊢
    dsimp only
    split at hstands
    · exact hstands
    · exact hstands
    · rename_i hphase
      rw [Leadership.writes, hphase] at hwrites
      cases hwrites
    all_goals trivial

theorem Leadership.Sound.note (h : s.Sound S) (seq : Nat) :
    Leadership.Sound S { s with
      rewind := s.rewind.trim S.sql seq
      lastReplicated := max s.lastReplicated seq } := by
  obtain ⟨newest, hsound, hnewest⟩ := h.buffer
  exact ⟨⟨newest, hsound.trim seq, hnewest⟩,
    fun e he => h.entries e ((trim_suffix s.rewind seq).subset he), h.links, h.now, h.above,
    h.permit, h.stands⟩

/-- Only the phase moves. -/
theorem Leadership.Sound.move (h : s.Sound S) {phase : RewindPhase κ}
    (hwrites : s.writes = true)
    (hstands : Leadership.Stands S { s with phase := phase }) :
    Leadership.Sound S { s with phase := phase } := by
  obtain ⟨newest, hsound, hnewest⟩ := h.buffer
  exact ⟨⟨newest, hsound, fun _ => hnewest hwrites⟩, h.entries, h.links, h.now,
    fun _ => h.above hwrites, h.permit, hstands⟩

section Collected

variable {hint here : Nat}

theorem collect_shape (hint here : Nat) :
    s.collect S hint here = .kept here (max hint s.lastReplicated) ∨
      (∃ why, s.collect S hint here = .refused why) ∨
      ∃ inverted, s.collect S hint here =
        .undoing here (max hint s.lastReplicated) inverted := by
  unfold Leadership.collect
  dsimp only
  split
  · exact .inl rfl
  · split
    · exact .inr (.inl ⟨_, rfl⟩)
    · split
      · exact .inr (.inl ⟨_, rfl⟩)
      · split
        · exact .inr (.inl ⟨_, rfl⟩)
        · exact .inr (.inr ⟨_, rfl⟩)

/-- The inverses that were collected are those of all numbers above the target,
newest first, and all these numbers are retained. -/
theorem Leadership.Sound.collected (h : s.Sound S) {t target : Nat} {inverted : List κ}
    (hc : s.collect S hint here = .undoing t target inverted) :
    target < here ∧ (∀ n, target < n → n ≤ here → n ∈ s.retained) ∧
      ∃ cs : List κ, (List.range' (target + 1) (here - target)).map s.changeOf = cs.map some ∧
        inverted = cs.reverse.map S.sql.invert := by
  unfold Leadership.collect at hc
  dsimp only at hc
  split at hc
  · cases hc
  · rename_i habove
    split at hc
    · cases hc
    · split at hc
      · cases hc
      · rename_i last collected hundoing
        split at hc
        · cases hc
        · rename_i htarget
          cases hc
          obtain ⟨newest, hnewest, hdescends, hall, rfl, hlast⟩ := undoing_spec hundoing
          have hle := hdescends.length_le hall
          have hlast := hlast (hle.trans (Nat.sub_le _ _))
          rw [not_not.mp htarget] at hlast
          have hlen : newest.length = here - max hint s.lastReplicated := by omega
          have hnumbers := numbers_of_descends hdescends (hle.trans (Nat.sub_le _ _))
          have hfirst : here + 1 - newest.length = max hint s.lastReplicated + 1 := by omega
          rw [hfirst, hlen] at hnumbers
          have hin : ∀ e ∈ newest, e ∈ s.rewind.entries := fun e he =>
            List.mem_reverse.mp (hnewest.subset he)
          refine ⟨Nat.lt_of_not_le habove, ?_, newest.reverse.map Prod.snd, ?_, ?_⟩
          · intro n hlt hhere
            have hn : n ∈ newest.reverse.map Prod.fst := by
              rw [hnumbers, List.mem_range'_1]
              omega
            obtain ⟨e, he, rfl⟩ := List.mem_map.mp hn
            exact List.mem_map_of_mem (hin e (List.mem_reverse.mp he))
          · rw [← hnumbers, List.map_map, List.map_map]
            exact List.map_congr_left fun e he => h.entries e (hin e (List.mem_reverse.mp he))
          · rw [← List.map_reverse, List.reverse_reverse, List.map_map]
            rfl

/-- With all numbers above the target retained the rewind is not refused. -/
theorem Leadership.Sound.collects (h : s.Sound S) (hwrites : s.writes = true)
    (hhere : here = s.newest) (hlt : max hint s.lastReplicated < here)
    (hall : ∀ n, max hint s.lastReplicated < n → n ≤ here → n ∈ s.retained) :
    ∃ inverted, s.collect S hint here = .undoing here (max hint s.lastReplicated) inverted := by
  obtain ⟨newest, ⟨-, first, hnumbers, htop, hfloor⟩, hnewest⟩ := h.buffer
  rw [hnewest hwrites, ← hhere] at htop
  have hfirst : first ≤ max hint s.lastReplicated + 1 := by
    have hin := hall _ (Nat.lt_succ_self _) hlt
    rw [Leadership.retained, hnumbers, List.mem_range'_1] at hin
    exact hin.1
  have hcovered : s.rewind.canRewindTo (max hint s.lastReplicated) = true := by
    unfold RewindBuffer.canRewindTo
    cases hf : s.rewind.floor with
    | none => rfl
    | some f =>
        have hbelow := hfloor f hf
        exact decide_eq_true (by omega)
  have hdescends : Descends here s.rewind.entries.reverse := by
    have hlast := descends_of_numbers hnumbers
    rwa [htop, Nat.add_sub_cancel] at hlast
  have hundoing := @undoing_eq _ _ S _ _ _ hdescends hlt.le (by
    rw [List.length_reverse]
    omega)
  unfold Leadership.collect
  dsimp only
  rw [if_neg (Nat.not_le.mpr hlt), if_neg (by rw [hcovered]; nofun), hundoing]
  exact ⟨_, if_neg (not_not.mpr rfl)⟩

theorem Leadership.Sound.collect (h : s.Sound S) (hwrites : s.writes = true)
    (hle : here ≤ s.replSeq) :
    Leadership.Sound S { s with phase := s.collect S hint here } := by
  refine h.move hwrites ?_
  obtain hkept | ⟨why, hrefused⟩ | ⟨inverted, hundoing⟩ := @collect_shape _ _ S s hint here
  · rw [hkept]
    trivial
  · rw [hrefused]
    trivial
  · obtain ⟨hlt, -, hcs⟩ := h.collected hundoing
    rw [hundoing]
    exact ⟨hlt, hle, hcs⟩

/-- Where the collected inverses lead. -/
theorem Leadership.Sound.undo (h : s.Sound S) {target : Nat} {inverted : List κ}
    (hphase : s.phase = .undoing here target inverted) (hhere : s.replSeq = here) :
    ∃ x, s.stateOf target = some x ∧ S.sql.applyAll s.contents inverted = some x := by
  have hstands := h.stands
  rw [Leadership.Stands, hphase] at hstands
  obtain ⟨hlt, -, cs, hcs, rfl⟩ := hstands
  have hy : s.stateOf (target + (here - target)) = some s.contents := by
    rw [← h.now, hhere]
    congr 1
    omega
  obtain ⟨x, hx, happly⟩ := h.leads hcs hy
  exact ⟨x, hx, S.sql.applyAll_undo happly⟩

end Collected

/-- The outcomes of `apply_rewind`. -/
theorem Leadership.Sound.applyRewind (h : s.Sound S) {here target : Nat} {inverted : List κ}
    (hphase : s.phase = .undoing here target inverted) (sqlite : Bool) :
    (s.replSeq = here ∧ sqlite = true ∧ ∃ x, s.stateOf target = some x ∧
      s.applyRewind S here target inverted sqlite =
        { s with contents := x, replSeq := target, phase := .rewound target }) ∨
    ((s.replSeq ≠ here ∨ sqlite = false) ∧ ∃ why,
      s.applyRewind S here target inverted sqlite = { s with phase := .refused why }) := by
  unfold Leadership.applyRewind
  by_cases hhere : s.replSeq = here
  · obtain ⟨x, hx, happly⟩ := h.undo hphase hhere
    rw [if_neg (not_not.mpr hhere), happly]
    cases sqlite with
    | false => exact .inr ⟨.inr rfl, _, rfl⟩
    | true => exact .inl ⟨hhere, rfl, x, hx, rfl⟩
  · rw [if_pos hhere]
    exact .inr ⟨.inl hhere, _, rfl⟩

theorem sound_step {op : RewindOp κ} (h : s.Sound S) (hstep : RewindStep S s op s') :
    s'.Sound S := by
  have hwrites : (∀ target, s.phase ≠ .rewound target) → s.writes = true := by
    intro hphase
    unfold Leadership.writes
    split
    · rename_i target hrewound
      exact absurd hrewound (hphase target)
    · rfl
  unfold RewindStep at hstep
  cases op with
  | commit c =>
      simp only [rewindStep] at hstep
      split at hstep
      · rename_i contents hpermit happly
        split at hstep
        · rename_i hopen
          cases hstep
          exact h.commit hpermit hopen happly
        · cases hstep
      · cases hstep
  | publish =>
      simp only [rewindStep] at hstep
      split at hstep
      · rename_i c hpermit
        cases hstep
        exact h.publish hpermit
      · cases hstep
  | published =>
      simp only [rewindStep] at hstep
      split at hstep
      · rename_i hpermit
        cases hstep
        obtain ⟨newest, hsound, hnewest⟩ := h.buffer
        refine ⟨⟨newest, hsound, fun hopen => ?_⟩, h.entries, h.links, h.now, h.above, nofun, ?_⟩
        · rw [hnewest hopen, Leadership.newest, hpermit]
          rfl
        · have hstands := h.stands
          unfold Leadership.Stands at hstands ⊢
          dsimp only
          split at hstands
          · exact hstands
          · exact hstands
          · exact ⟨hstands.1, rfl⟩
          all_goals trivial
      · cases hstep
  | noteReplicated seq =>
      cases hstep
      exact h.note seq
  | rewindTo hint =>
      simp only [rewindStep] at hstep
      split at hstep
      · rename_i hphase
        cases hstep
        exact h.move (hwrites (by rw [hphase]; nofun)) (Nat.le_refl s.replSeq)
      · cases hstep
  | collect =>
      simp only [rewindStep] at hstep
      split at hstep
      · rename_i hint here hphase
        cases hstep
        have hstands := h.stands
        rw [Leadership.Stands, hphase] at hstands
        exact h.collect (hwrites (by rw [hphase]; nofun)) hstands
      · cases hstep
  | applyRewind sqlite =>
      simp only [rewindStep] at hstep
      split at hstep
      · rename_i here target inverted hphase hpermit
        cases hstep
        obtain ⟨-, -, x, hx, hdone⟩ | ⟨-, why, hrefused⟩ := h.applyRewind hphase sqlite
        · rw [hdone]
          obtain ⟨newest, hsound, -⟩ := h.buffer
          exact ⟨⟨newest, hsound, nofun⟩, h.entries, h.links, hx, nofun,
            fun c hc => (by rw [hpermit] at hc; cases hc), rfl, hpermit⟩
        · rw [hrefused]
          exact h.move (hwrites (by rw [hphase]; nofun)) trivial
      · cases hstep

/-- The byte count and the numbers of the buffer, for every run of commits and
acknowledgements; a rewind to the greater of the hint and the watermark keeps a
database that is not above it, is refused when a changeset is not retained, and
else restores the tables of that number. -/
theorem rewind_restores (S : Setup δ κ) {s₀ s : Leadership δ κ} {ops : List (RewindOp κ)}
    (h₀ : s₀.Fresh) (hrun : Runs (RewindStep S) s₀ ops s) :
    (s.rewind.bytes = (s.rewind.entries.map fun e => S.sql.bytes e.2).sum ∧
      ∃ first, s.retained = List.range' first s.retained.length) ∧
    (∀ hint here, s.phase = .reading hint here → ∀ s', RewindStep S s .collect s' →
      s'.contents = s.contents ∧ s'.replSeq = s.replSeq ∧
      (here ≤ max hint s.lastReplicated → s'.phase = .kept here (max hint s.lastReplicated)) ∧
      (∀ n, max hint s.lastReplicated < n → n ≤ here → n ∉ s.retained →
        ∃ why, s'.phase = .refused why) ∧
      (here = s.newest → max hint s.lastReplicated < here →
        (∀ n, max hint s.lastReplicated < n → n ≤ here → n ∈ s.retained) →
        ∃ inverted, s'.phase = .undoing here (max hint s.lastReplicated) inverted)) ∧
    (∀ here target inverted, s.phase = .undoing here target inverted →
      (∃ cs : List κ, (List.range' (target + 1) (here - target)).map s.changeOf = cs.map some ∧
        inverted = cs.reverse.map S.sql.invert) ∧
      ∀ sqlite s', RewindStep S s (.applyRewind sqlite) s' →
        (s.replSeq = here ∧ sqlite = true ∧ s'.phase = .rewound target) ∨
          ((s.replSeq ≠ here ∨ sqlite = false) ∧ (∃ why, s'.phase = .refused why) ∧
            s'.contents = s.contents ∧ s'.replSeq = s.replSeq)) ∧
    (∀ target, s.phase = .rewound target →
      s.replSeq = target ∧ s.stateOf target = some s.contents) := by
  have h : s.Sound S := hrun.invariant (Leadership.Sound S) sound_step h₀.sound
  refine ⟨?_, ?_, ?_, ?_⟩
  · obtain ⟨newest, ⟨hbytes, first, hnumbers, -, -⟩, -⟩ := h.buffer
    refine ⟨hbytes, first, ?_⟩
    rw [Leadership.retained, List.length_map]
    exact hnumbers
  · intro hint here hphase s' hstep
    have hstep : some { s with phase := s.collect S hint here } = some s' := by
      simpa only [RewindStep, rewindStep, hphase] using hstep
    obtain rfl := Option.some.inj hstep
    have hwrites : s.writes = true := by rw [Leadership.writes, hphase]
    refine ⟨rfl, rfl, ?_, ?_, ?_⟩
    · intro hle
      exact if_pos hle
    · intro n hlt hhere hmissing
      obtain hkept | hrefused | ⟨inverted, hundoing⟩ := @collect_shape _ _ S s hint here
      · have hundo : ¬ here ≤ max hint s.lastReplicated := by omega
        unfold Leadership.collect at hkept
        dsimp only at hkept
        rw [if_neg hundo] at hkept
        split at hkept
        · cases hkept
        · split at hkept
          · cases hkept
          · split at hkept <;> cases hkept
      · exact hrefused
      · exact absurd ((h.collected hundoing).2.1 n hlt hhere) hmissing
    · exact h.collects hwrites
  · intro here target inverted hphase
    have hstands := h.stands
    rw [Leadership.Stands, hphase] at hstands
    refine ⟨hstands.2.2, ?_⟩
    intro sqlite s' hstep
    have hstep : some (s.applyRewind S here target inverted sqlite) = some s' := by
      simp only [RewindStep, rewindStep, hphase] at hstep
      split at hstep
      · rename_i heq _
        cases heq
        exact hstep
      · cases hstep
    obtain rfl := Option.some.inj hstep
    obtain ⟨hhere, hsqlite, x, -, hdone⟩ | ⟨hfailed, why, hrefused⟩ := h.applyRewind hphase sqlite
    · rw [hdone]
      exact .inl ⟨hhere, hsqlite, rfl⟩
    · rw [hrefused]
      exact .inr ⟨hfailed, ⟨why, rfl⟩, rfl, rfl⟩
  · intro target hphase
    have hstands := h.stands
    rw [Leadership.Stands, hphase] at hstands
    exact ⟨hstands.1, hstands.1 ▸ h.now⟩

end Invariant

end Steps

/-! ## A demotion -/

/-- A leadership on an empty table. -/
def elected : Leadership Nat (Nat × Nat) :=
  { contents := 0, replSeq := 0, stateOf := fun n => if n = 0 then some 0 else none }

theorem elected_fresh : elected.Fresh := ⟨rfl, rfl, rfl, rfl, rfl⟩

/-- Of two commits a quorum has the first. -/
def demotedOps : List (RewindOp (Nat × Nat)) :=
  [.commit (0, 1), .publish, .published, .commit (1, 2), .publish, .noteReplicated 1, .published,
    .rewindTo 1, .collect, .applyRewind true]

theorem rewind_restores_first : ∃ s, Runs (RewindStep threeNodes) elected demotedOps s ∧
    s.phase = .rewound 1 ∧ s.replSeq = 1 ∧ s.stateOf 1 = some s.contents := by
  have hrun : ∃ s, Runs (RewindStep threeNodes) elected demotedOps s ∧ s.phase = .rewound 1 :=
    ⟨_, .next rfl (.next rfl (.next rfl (.next rfl (.next rfl (.next rfl (.next rfl (.next rfl
      (.next rfl (.next rfl (.refl _)))))))))), rfl⟩
  obtain ⟨s, hrun, hphase⟩ := hrun
  exact ⟨s, hrun, hphase, (rewind_restores threeNodes elected_fresh hrun).2.2.2 1 hphase⟩

/-- A hint above the database is not reached. -/
theorem rewind_below_hint : ¬ ∀ (S : Setup Nat (Nat × Nat)) (s₀ s : Leadership Nat (Nat × Nat))
    (ops : List (RewindOp (Nat × Nat))), s₀.Fresh → Runs (RewindStep S) s₀ ops s →
    ∀ here target, s.phase = .kept here target → s.replSeq = target := by
  intro h
  have hrun : ∃ s, Runs (RewindStep threeNodes) elected [.rewindTo 5, .collect] s ∧
      s.phase = .kept 0 5 ∧ s.replSeq = 0 :=
    ⟨_, .next rfl (.next rfl (.refl _)), rfl, rfl⟩
  obtain ⟨s, hrun, hphase, hseq⟩ := hrun
  have heq := h threeNodes elected s _ elected_fresh hrun 0 5 hphase
  rw [hseq] at heq
  cases heq

end AgentGrid.Ha
