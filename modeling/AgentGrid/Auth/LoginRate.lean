import Mathlib.Data.Finset.Card
import Mathlib.Logic.Function.Basic
import AgentGrid.Foundation.Transition
import Mathlib.Algebra.Ring.Nat

/-!
# The login limiter

Fixed-window counters in a map with a cap.  A key that is not in a full map
drives the expired entries out and, if that is not enough, the entry with the
oldest window.  Counters have 32 bits; the clock is in seconds since the epoch
and no key has been seen before it.
-/

namespace AgentGrid.Auth

open AgentGrid.Foundation

structure Entry where
  start : Int
  count : Nat
deriving DecidableEq

/-- A hash map of entries; its length is the number of keys. -/
structure WindowMap (κ : Type) where
  cap : Nat
  entries : κ → Option Entry := fun _ => none
  keys : Finset κ := ∅
  mem_keys : ∀ k, k ∈ keys ↔ (entries k).isSome = true := by simp

namespace WindowMap

variable {κ : Type} [DecidableEq κ]

def len (m : WindowMap κ) : Nat := m.keys.card

def insert (m : WindowMap κ) (key : κ) (e : Entry) : WindowMap κ where
  cap := m.cap
  entries := Function.update m.entries key (some e)
  keys := Insert.insert key m.keys
  mem_keys k := by
    by_cases h : k = key
    · simp [h]
    · simp [h, m.mem_keys k]

def remove (m : WindowMap κ) (key : κ) : WindowMap κ where
  cap := m.cap
  entries := Function.update m.entries key none
  keys := m.keys.erase key
  mem_keys k := by
    by_cases h : k = key
    · simp [h]
    · simp [h, m.mem_keys k]

def retain (m : WindowMap κ) (p : Entry → Bool) : WindowMap κ where
  cap := m.cap
  entries k := (m.entries k).filter p
  keys := m.keys.filter fun k => ((m.entries k).filter p).isSome = true
  mem_keys k := by
    rw [Finset.mem_filter, m.mem_keys k]
    cases h : m.entries k <;> simp [Option.filter]

/-- A key with the oldest window, if there is one. -/
def IsOldest (m : WindowMap κ) : Option κ → Prop
  | none => m.keys = ∅
  | some k => ∃ e, m.entries k = some e ∧
      ∀ k' e', m.entries k' = some e' → e.start ≤ e'.start

/-- The entries whose window is open. -/
def live (m : WindowMap κ) (now window : Int) : WindowMap κ :=
  m.retain fun e => now - e.start < window

/-- `oldest` is the key that `min_by_key` finds among the live entries. -/
def makeRoom (m : WindowMap κ) (key : κ) (now window : Int) (oldest : Option κ) :
    WindowMap κ :=
  if (m.entries key).isNone ∧ m.cap ≤ m.len then
    let m := m.live now window
    if m.cap ≤ m.len then
      match oldest with
      | some k => m.remove k
      | none => m
    else m
  else m

end WindowMap

/-- The entry with one more event. -/
def Entry.record (e : Entry) (now window : Int) : Entry :=
  let e := if window ≤ now - e.start then { start := now, count := 0 } else e
  { e with count := (e.count + 1) % 2 ^ 32 }

namespace WindowMap

variable {κ : Type} [DecidableEq κ]

def checkAndRecord (m : WindowMap κ) (key : κ) (now window : Int) (max : Nat)
    (oldest : Option κ) : WindowMap κ × Bool :=
  let m := m.makeRoom key now window oldest
  let e := ((m.entries key).getD ⟨0, 0⟩).record now window
  (m.insert key e, decide (e.count ≤ max))

def reset (m : WindowMap κ) (key : κ) : WindowMap κ := m.remove key

end WindowMap

/-! ## The limiter over time -/

/-- The window of a key: when it opened, how many events it has recorded and
how many of them were admitted. -/
structure Meter where
  start : Int
  recorded : Nat
  admitted : Nat
deriving DecidableEq

/-- A window opens with its first event, and the first of the clock with the
epoch. -/
def Meter.open (now window : Int) : Meter where
  start := if now < window then 0 else now
  recorded := 0
  admitted := 0

/-- The window that an event of a key falls into. -/
def Meter.at (meter : Option Meter) (now window : Int) : Meter :=
  match meter with
  | none => .open now window
  | some m => if window ≤ now - m.start then .open now window else m

def Meter.next (m : Meter) (admitted : Bool) : Meter :=
  { m with recorded := m.recorded + 1, admitted := m.admitted + admitted.toNat }

/-- `meters` has the windows of all keys and `touches` all recorded events. -/
structure Limiter (κ : Type) where
  map : WindowMap κ
  now : Int := 0
  meters : κ → Option Meter := fun _ => none
  touches : List (κ × Int) := []

inductive LimiterEvent (κ : Type)
  | checkAndRecord (key : κ) (now : Int) (oldest : Option κ)
  | reset (key : κ)

section Steps

variable {κ : Type} [DecidableEq κ]

def Limiter.check (s : Limiter κ) (window : Int) (max : Nat) (key : κ) (now : Int)
    (oldest : Option κ) : Limiter κ × Bool :=
  let (map, admitted) := s.map.checkAndRecord key now window max oldest
  ({ map := map
     now := now
     meters := Function.update s.meters key
       (some ((Meter.at (s.meters key) now window).next admitted))
     touches := (key, now) :: s.touches }, admitted)

/-- The clock does not run backwards. -/
def LimiterStep (window : Int) (max : Nat) (s : Limiter κ) (e : LimiterEvent κ)
    (s' : Limiter κ) : Prop :=
  match e with
  | .checkAndRecord key now oldest =>
      s.now ≤ now ∧ (s.map.live now window).IsOldest oldest ∧
        s' = (s.check window max key now oldest).1
  | .reset key =>
      s' = { s with map := s.map.reset key, meters := Function.update s.meters key none }

/-- The keys touched within the window that ends now. -/
def Limiter.touched (s : Limiter κ) (now window : Int) : Finset κ :=
  ((s.touches.filter fun touch => now - touch.2 < window).map Prod.fst).toFinset

/-- With this event at most `cap` keys are touched within a window. -/
def Roomy (window : Int) (s : Limiter κ) : LimiterEvent κ → Prop
  | .checkAndRecord key now _ => (Insert.insert key (s.touched now window)).card ≤ s.map.cap
  | .reset _ => True

/-- The counter of the window has room for the event. -/
def Countable (window : Int) (s : Limiter κ) : LimiterEvent κ → Prop
  | .checkAndRecord key now _ =>
      (Meter.at (s.meters key) now window).recorded + 1 < 2 ^ 32
  | .reset _ => True

end Steps

namespace WindowMap

variable {κ : Type} [DecidableEq κ] {m : WindowMap κ}

@[simp] theorem entries_insert (key : κ) (e : Entry) (k : κ) :
    (m.insert key e).entries k = if k = key then some e else m.entries k :=
  Function.update_apply _ _ _ _

@[simp] theorem entries_remove (key k : κ) :
    (m.remove key).entries k = if k = key then none else m.entries k :=
  Function.update_apply _ _ _ _

omit [DecidableEq κ] in
theorem entries_live {k : κ} {e : Entry} {now window : Int} :
    (m.live now window).entries k = some e ↔
      m.entries k = some e ∧ now - e.start < window := by
  simp [live, retain, Option.filter_eq_some_iff]

theorem len_insert_le (key : κ) (e : Entry) : (m.insert key e).len ≤ m.len + 1 :=
  Finset.card_insert_le key m.keys

theorem len_insert_of_some {key : κ} (e : Entry) (h : (m.entries key).isSome = true) :
    (m.insert key e).len = m.len := by
  have hmem : key ∈ m.keys := (m.mem_keys key).mpr h
  exact congrArg Finset.card (Finset.insert_eq_self.mpr hmem)

omit [DecidableEq κ] in
theorem len_live_le (now window : Int) : (m.live now window).len ≤ m.len :=
  Finset.card_le_card (Finset.filter_subset _ _)

theorem cap_makeRoom (key : κ) (now window : Int) (oldest : Option κ) :
    (m.makeRoom key now window oldest).cap = m.cap := by
  fun_cases makeRoom m key now window oldest <;> rfl

/-- After making room for a new key there is room. -/
theorem makeRoom_len {key : κ} {now window : Int} {oldest : Option κ} (hcap : 0 < m.cap)
    (hlen : m.len ≤ m.cap) (hnew : m.entries key = none)
    (holdest : (m.live now window).IsOldest oldest) :
    (m.makeRoom key now window oldest).len < m.cap := by
  have hlive := m.len_live_le now window
  fun_cases makeRoom m key now window oldest with
  | case1 _ _ hfull k =>
      have hfull : m.cap ≤ (m.live now window).len := hfull
      obtain ⟨e, he, -⟩ := holdest
      have hmem : k ∈ (m.live now window).keys := by
        rw [mem_keys, he]
        rfl
      have hcard : ((m.live now window).remove k).len = (m.live now window).len - 1 :=
        Finset.card_erase_of_mem hmem
      rw [hcard]
      omega
  | case2 _ _ hfull =>
      have hfull : m.cap ≤ (m.live now window).len := hfull
      have hempty : (m.live now window).len = 0 := by
        rw [len, holdest, Finset.card_empty]
      omega
  | case3 _ _ _ hroom => exact Nat.lt_of_not_le hroom
  | case4 _ hroom =>
      have hroom : ¬ m.cap ≤ m.len := by simpa [hnew] using hroom
      omega

theorem makeRoom_of_some {key : κ} {now window : Int} {oldest : Option κ}
    (h : (m.entries key).isSome = true) : m.makeRoom key now window oldest = m := by
  rw [makeRoom, if_neg]
  rintro ⟨hnone, -⟩
  rw [Option.isNone_iff_eq_none.mp hnone] at h
  cases h

theorem checkAndRecord_len {key : κ} {now window : Int} (max : Nat) {oldest : Option κ}
    (hcap : 0 < m.cap) (hlen : m.len ≤ m.cap)
    (holdest : (m.live now window).IsOldest oldest) :
    (m.checkAndRecord key now window max oldest).1.len ≤ m.cap := by
  cases hkey : m.entries key with
  | none =>
      have hroom := makeRoom_len hcap hlen hkey holdest
      exact Nat.le_trans (len_insert_le _ _) hroom
  | some e =>
      have hsome : (m.entries key).isSome = true := by rw [hkey]; rfl
      rw [checkAndRecord, makeRoom_of_some hsome]
      exact Nat.le_trans (Nat.le_of_eq (len_insert_of_some _ hsome)) hlen

end WindowMap

section Cap

variable {κ : Type} [DecidableEq κ] {window : Int} {max cap : Nat}

/-- The map is within its cap. -/
def Limiter.Capped (cap : Nat) (s : Limiter κ) : Prop := s.map.cap = cap ∧ s.map.len ≤ cap

theorem Limiter.Capped.step (hcap : 0 < cap) {s s' : Limiter κ} {e : LimiterEvent κ}
    (hs : s.Capped cap) (hstep : LimiterStep window max s e s') : s'.Capped cap := by
  obtain ⟨rfl, hlen⟩ := hs
  cases e with
  | checkAndRecord key now oldest =>
      obtain ⟨-, holdest, rfl⟩ := hstep
      refine ⟨WindowMap.cap_makeRoom _ _ _ _, ?_⟩
      exact WindowMap.checkAndRecord_len max hcap hlen holdest
  | reset key =>
      obtain rfl := hstep
      exact ⟨rfl, Nat.le_trans (Finset.card_le_card (Finset.erase_subset _ _)) hlen⟩

end Cap

/-! ## The two buckets -/

/-- A bucket for source addresses and one for the failures of accounts. -/
structure LoginRate (ι : Type) where
  perIp : Limiter ι
  perUser : Limiter String

section Buckets

variable {ι : Type} [DecidableEq ι]

def LoginRate.admitClient (s : LoginRate ι) (client : Option ι) (now : Int) (oldest : Option ι) :
    LoginRate ι × Bool :=
  match client with
  | some ip =>
      let (perIp, admitted) := s.perIp.check 60 30 ip now oldest
      ({ s with perIp := perIp }, admitted)
  | none => (s, true)

def LoginRate.noteFailure (lower : String → String) (s : LoginRate ι) (username : String)
    (now : Int) (oldest : Option String) : LoginRate ι × Bool :=
  let (perUser, within) := s.perUser.check 60 10 (lower username) now oldest
  ({ s with perUser := perUser }, within)

inductive LoginEvent (ι : Type)
  | admitClient (client : Option ι) (now : Int) (oldest : Option ι)
  | noteFailure (username : String) (now : Int) (oldest : Option String)
  | noteSuccess (username : String)

/-- `lower` is `str::to_lowercase`. -/
def LoginStep (lower : String → String) (s : LoginRate ι) (e : LoginEvent ι)
    (s' : LoginRate ι) : Prop :=
  match e with
  | .admitClient (some ip) now oldest =>
      LimiterStep 60 30 s.perIp (.checkAndRecord ip now oldest) s'.perIp ∧
        s' = (s.admitClient (some ip) now oldest).1
  | .admitClient none _ _ => s' = s
  | .noteFailure username now oldest =>
      LimiterStep 60 10 s.perUser (.checkAndRecord (lower username) now oldest) s'.perUser ∧
        s' = (s.noteFailure lower username now oldest).1
  | .noteSuccess username =>
      LimiterStep 60 10 s.perUser (.reset (lower username)) s'.perUser ∧ s'.perIp = s.perIp

def LoginEvent.ofIp : LoginEvent ι → Option (LimiterEvent ι)
  | .admitClient (some ip) now oldest => some (.checkAndRecord ip now oldest)
  | _ => none

def LoginEvent.ofUser (lower : String → String) : LoginEvent ι → Option (LimiterEvent String)
  | .noteFailure username now oldest => some (.checkAndRecord (lower username) now oldest)
  | .noteSuccess username => some (.reset (lower username))
  | _ => none

/-- Each bucket of the login limiter is a limiter of its own. -/
theorem loginRate_buckets {lower : String → String} {s s' : LoginRate ι}
    {ops : List (LoginEvent ι)} (hrun : Runs (LoginStep lower) s ops s') :
    Runs (LimiterStep 60 30) s.perIp (ops.filterMap LoginEvent.ofIp) s'.perIp ∧
      Runs (LimiterStep 60 10) s.perUser (ops.filterMap (LoginEvent.ofUser lower)) s'.perUser := by
  induction hrun with
  | refl s => exact ⟨.refl _, .refl _⟩
  | @next s t u e ops hstep _ ih =>
      obtain ⟨hip, huser⟩ := ih
      cases e with
      | admitClient client now oldest =>
          cases client with
          | none =>
              obtain rfl : t = s := hstep
              exact ⟨hip, huser⟩
          | some ip =>
              obtain ⟨hstep, rfl⟩ := hstep
              exact ⟨.next hstep hip, huser⟩
      | noteFailure username now oldest =>
          obtain ⟨hstep, rfl⟩ := hstep
          exact ⟨hip, .next hstep huser⟩
      | noteSuccess username =>
          obtain ⟨hstep, hsame⟩ := hstep
          rw [hsame] at hip
          exact ⟨hip, .next hstep huser⟩

end Buckets

section Windows

variable {κ : Type} [DecidableEq κ] {window : Int} {max : Nat} {s s' : Limiter κ}

/-- The entry of a key is its open window, and a window without an entry is
closed. -/
structure Limiter.Sound (window : Int) (max : Nat) (s : Limiter κ) : Prop where
  clock : 0 ≤ s.now
  touched : ∀ k e, s.map.entries k = some e → ∃ t, (k, t) ∈ s.touches ∧ e.start ≤ t
  kept : ∀ k e, s.map.entries k = some e →
    ∃ m, s.meters k = some m ∧ m.start = e.start ∧ m.recorded = e.count
  closed : ∀ k m, s.map.entries k = none → s.meters k = some m → window ≤ s.now - m.start
  opened : ∀ k m, s.meters k = some m → 0 ≤ m.start ∧ m.start ≤ s.now
  budget : ∀ k m, s.meters k = some m → m.admitted = min m.recorded max

theorem Meter.at_start {meter : Option Meter} {now window : Int} (hnow : 0 ≤ now)
    (hmeter : ∀ m, meter = some m → 0 ≤ m.start ∧ m.start ≤ now) :
    0 ≤ (Meter.at meter now window).start ∧ (Meter.at meter now window).start ≤ now := by
  have hopen : 0 ≤ (Meter.open now window).start ∧ (Meter.open now window).start ≤ now := by
    simp only [Meter.open]
    split <;> omega
  fun_cases Meter.at meter now window with
  | case1 => exact hopen
  | case2 => exact hopen
  | case3 m => exact hmeter m rfl

theorem Meter.at_budget {meter : Option Meter} {now window : Int}
    (hmeter : ∀ m, meter = some m → m.admitted = min m.recorded max) :
    (Meter.at meter now window).admitted = min (Meter.at meter now window).recorded max := by
  fun_cases Meter.at meter now window with
  | case1 => exact (Nat.zero_min max).symm
  | case2 => exact (Nat.zero_min max).symm
  | case3 m => exact hmeter m rfl

/-- While there is room for the keys of a window, no open window is evicted. -/
theorem Limiter.Sound.makeRoom (hs : s.Sound window max) {key : κ} {now : Int}
    {oldest : Option κ} (hroomy : Roomy window s (.checkAndRecord key now oldest)) :
    s.map.makeRoom key now window oldest = s.map ∨
      s.map.entries key = none ∧
        s.map.makeRoom key now window oldest = s.map.live now window := by
  by_cases hnew : (s.map.entries key).isNone ∧ s.map.cap ≤ s.map.len
  · right
    refine ⟨Option.isNone_iff_eq_none.mp hnew.1, ?_⟩
    have hsub : (s.map.live now window).keys ⊆ s.touched now window := by
      intro k hk
      obtain ⟨e, he⟩ := Option.isSome_iff_exists.mp ((WindowMap.mem_keys _ k).mp hk)
      obtain ⟨hentry, hopen⟩ := WindowMap.entries_live.mp he
      obtain ⟨t, htouch, hstart⟩ := hs.touched k e hentry
      rw [Limiter.touched, List.mem_toFinset, List.mem_map]
      refine ⟨(k, t), List.mem_filter.mpr ⟨htouch, ?_⟩, rfl⟩
      simp only [decide_eq_true_eq]
      omega
    have hfresh : key ∉ (s.map.live now window).keys := by
      intro hk
      obtain ⟨e, he⟩ := Option.isSome_iff_exists.mp ((WindowMap.mem_keys _ key).mp hk)
      have hentry := (WindowMap.entries_live.mp he).1
      rw [Option.isNone_iff_eq_none.mp hnew.1] at hentry
      cases hentry
    have hcard : (s.map.live now window).len + 1 ≤ s.map.cap := by
      rw [WindowMap.len, ← Finset.card_insert_of_notMem hfresh]
      exact Nat.le_trans (Finset.card_le_card (Finset.insert_subset_insert key hsub)) hroomy
    have hroom : ¬ (s.map.live now window).cap ≤ (s.map.live now window).len := by
      change ¬ s.map.cap ≤ _
      omega
    rw [WindowMap.makeRoom, if_pos hnew]
    exact if_neg hroom
  · left
    rw [WindowMap.makeRoom, if_neg hnew]

omit [DecidableEq κ] in
/-- The entry that a check leaves is the window of the key. -/
theorem Limiter.Sound.record (hs : s.Sound window max) {key : κ} {now : Int}
    {oldest : Option κ} (hnow : s.now ≤ now)
    (hcount : Countable window s (.checkAndRecord key now oldest)) :
    (((s.map.entries key).getD ⟨0, 0⟩).record now window).start =
        (Meter.at (s.meters key) now window).start ∧
      (((s.map.entries key).getD ⟨0, 0⟩).record now window).count =
        (Meter.at (s.meters key) now window).recorded + 1 := by
  have hclock := hs.clock
  have hcount : (Meter.at (s.meters key) now window).recorded + 1 < 2 ^ 32 := hcount
  cases hentry : s.map.entries key with
  | none =>
      have hopen : Meter.at (s.meters key) now window = .open now window := by
        cases hmeter : s.meters key with
        | none => rfl
        | some m =>
            have hclosed := hs.closed key m hentry hmeter
            exact if_pos (by omega)
      rw [hopen, Option.getD_none, Entry.record, Meter.open]
      by_cases hearly : now < window
      · rw [if_pos hearly, if_neg (by simpa using hearly)]
        exact ⟨rfl, rfl⟩
      · rw [if_neg hearly, if_pos (by simpa using hearly)]
        exact ⟨rfl, rfl⟩
  | some e =>
      obtain ⟨m, hmeter, hstart, hrecorded⟩ := hs.kept key e hentry
      have hpos := (hs.opened key m hmeter).1
      rw [hmeter] at hcount ⊢
      rw [Option.getD_some, Entry.record, Meter.at]
      rw [Meter.at] at hcount
      rw [hstart] at hcount hpos ⊢
      by_cases hexpired : window ≤ now - e.start
      · have hlate : ¬ now < window := by omega
        rw [if_pos hexpired, if_pos hexpired, Meter.open, if_neg hlate]
        exact ⟨rfl, rfl⟩
      · rw [if_neg hexpired] at hcount
        rw [if_neg hexpired, if_neg hexpired]
        refine ⟨hstart.symm, ?_⟩
        rw [← hrecorded]
        exact Nat.mod_eq_of_lt hcount

theorem Limiter.meters_check (key : κ) (now : Int) (oldest : Option κ) :
    (s.check window max key now oldest).1.meters = Function.update s.meters key
      (some ((Meter.at (s.meters key) now window).next
        (s.check window max key now oldest).2)) := rfl

/-- Making room drives out expired entries alone. -/
theorem Limiter.Sound.survivors (hs : s.Sound window max) {key : κ} {now : Int}
    {oldest : Option κ} (hroomy : Roomy window s (.checkAndRecord key now oldest)) (k : κ) :
    (s.map.makeRoom key now window oldest).entries k = s.map.entries k ∨
      k ≠ key ∧ (s.map.makeRoom key now window oldest).entries k = none ∧
        ∃ e, s.map.entries k = some e ∧ window ≤ now - e.start := by
  rcases hs.makeRoom hroomy with heq | ⟨hnone, heq⟩
  · exact .inl (by rw [heq])
  · rw [heq]
    cases hlive : (s.map.live now window).entries k with
    | some e => exact .inl (WindowMap.entries_live.mp hlive).1.symm
    | none =>
        cases hentry : s.map.entries k with
        | none => exact .inl rfl
        | some e =>
            right
            refine ⟨?_, rfl, e, rfl, ?_⟩
            · rintro rfl
              rw [hnone] at hentry
              cases hentry
            · by_contra hopen
              have hlive' := WindowMap.entries_live.mpr ⟨hentry, Int.not_le.mp hopen⟩
              rw [hlive] at hlive'
              cases hlive'

theorem Limiter.Sound.found (hs : s.Sound window max) {key : κ} {now : Int}
    {oldest : Option κ} (hroomy : Roomy window s (.checkAndRecord key now oldest)) :
    (s.map.makeRoom key now window oldest).entries key = s.map.entries key := by
  rcases hs.survivors hroomy key with hsame | ⟨hne, -⟩
  · exact hsame
  · exact absurd rfl hne

/-- A check is answered by the window of its key alone. -/
theorem Limiter.Sound.answer (hs : s.Sound window max) {key : κ} {now : Int}
    {oldest : Option κ} (hnow : s.now ≤ now)
    (hroomy : Roomy window s (.checkAndRecord key now oldest))
    (hcount : Countable window s (.checkAndRecord key now oldest)) :
    (s.check window max key now oldest).2 =
      decide ((Meter.at (s.meters key) now window).recorded < max) := by
  obtain ⟨-, hrecorded⟩ := hs.record hnow hcount
  simp only [check, WindowMap.checkAndRecord, hs.found hroomy, hrecorded, Nat.succ_le_iff]

theorem Limiter.Sound.check (hs : s.Sound window max) {key : κ} {now : Int}
    {oldest : Option κ} (hnow : s.now ≤ now)
    (hroomy : Roomy window s (.checkAndRecord key now oldest))
    (hcount : Countable window s (.checkAndRecord key now oldest)) :
    (s.check window max key now oldest).1.Sound window max := by
  have hclock := hs.clock
  have hanswer := hs.answer hnow hroomy hcount
  obtain ⟨hstart, hrecorded⟩ := hs.record hnow hcount
  have hsurvivors := hs.survivors hroomy
  generalize hentry : ((s.map.entries key).getD ⟨0, 0⟩).record now window = e at hstart hrecorded
  generalize hmeter : Meter.at (s.meters key) now window = m at *
  have hbudget : m.admitted = min m.recorded max := hmeter ▸ Meter.at_budget (hs.budget key)
  have hopened : 0 ≤ m.start ∧ m.start ≤ now := by
    rw [← hmeter]
    refine Meter.at_start (Int.le_trans hclock hnow) fun m' hm' => ?_
    obtain ⟨hpos, hle⟩ := hs.opened key m' hm'
    exact ⟨hpos, Int.le_trans hle hnow⟩
  have hentries : ∀ k, (s.check window max key now oldest).1.map.entries k =
      if k = key then some e
      else (s.map.makeRoom key now window oldest).entries k := by
    intro k
    simp only [Limiter.check, WindowMap.checkAndRecord, WindowMap.entries_insert,
      hs.found hroomy, hentry]
  have hmeters : ∀ k, (s.check window max key now oldest).1.meters k =
      if k = key then some (m.next (decide (m.recorded < max))) else s.meters k := by
    intro k
    rw [Limiter.meters_check, hanswer, hmeter, Function.update_apply]
  have hother : ∀ k e', k ≠ key →
      (s.check window max key now oldest).1.map.entries k = some e' →
      s.map.entries k = some e' := by
    intro k e' hk he'
    rw [hentries, if_neg hk] at he'
    rcases hsurvivors k with hsame | ⟨-, hgone, -⟩
    · rw [← hsame, he']
    · rw [hgone] at he'
      cases he'
  constructor
  · exact Int.le_trans hclock hnow
  · intro k e' he'
    by_cases hk : k = key
    · rw [hentries, if_pos hk] at he'
      cases he'
      exact ⟨now, by rw [hk]; exact List.mem_cons_self, hstart ▸ hopened.2⟩
    · obtain ⟨t, htouch, hstart'⟩ := hs.touched k e' (hother k e' hk he')
      exact ⟨t, List.mem_cons_of_mem _ htouch, hstart'⟩
  · intro k e' he'
    by_cases hk : k = key
    · rw [hentries, if_pos hk] at he'
      cases he'
      exact ⟨m.next _, by rw [hmeters, if_pos hk], hstart.symm, hrecorded.symm⟩
    · obtain ⟨m', hm', hkept⟩ := hs.kept k e' (hother k e' hk he')
      exact ⟨m', by rw [hmeters, if_neg hk, hm'], hkept⟩
  · intro k m' he' hm'
    by_cases hk : k = key
    · rw [hentries, if_pos hk] at he'
      cases he'
    · rw [hentries, if_neg hk] at he'
      rw [hmeters, if_neg hk] at hm'
      change window ≤ now - m'.start
      rcases hsurvivors k with hsame | ⟨-, -, e', hgone, hexpired⟩
      · have hclosed := hs.closed k m' (by rw [← hsame, he']) hm'
        omega
      · obtain ⟨m'', hm'', hsame, -⟩ := hs.kept k e' hgone
        rw [hm'] at hm''
        cases hm''
        rw [hsame]
        exact hexpired
  · intro k m' hm'
    rw [hmeters] at hm'
    split at hm'
    · cases hm'
      exact hopened
    · obtain ⟨hpos, hle⟩ := hs.opened k m' hm'
      exact ⟨hpos, Int.le_trans hle hnow⟩
  · intro k m' hm'
    rw [hmeters] at hm'
    split at hm'
    · cases hm'
      simp only [Meter.next, hbudget]
      by_cases hlt : m.recorded < max
      · simp only [hlt, decide_true, Bool.toNat_true]
        omega
      · simp only [hlt, decide_false, Bool.toNat_false]
        omega
    · exact hs.budget k m' hm'

theorem Limiter.Sound.reset (hs : s.Sound window max) (key : κ) :
    Limiter.Sound window max { s with
      map := s.map.reset key, meters := Function.update s.meters key none } := by
  constructor
  · exact hs.clock
  · intro k e he
    rw [WindowMap.reset, WindowMap.entries_remove] at he
    split at he
    · cases he
    · exact hs.touched k e he
  · intro k e he
    rw [WindowMap.reset, WindowMap.entries_remove] at he
    split at he
    · cases he
    · rename_i hne
      simpa [Function.update_of_ne hne] using hs.kept k e he
  · intro k m he hm
    by_cases hk : k = key
    · simp [hk] at hm
    · rw [WindowMap.reset, WindowMap.entries_remove, if_neg hk] at he
      exact hs.closed k m he (by simpa [Function.update_of_ne hk] using hm)
  · intro k m hm
    by_cases hk : k = key
    · simp [hk] at hm
    · exact hs.opened k m (by simpa [Function.update_of_ne hk] using hm)
  · intro k m hm
    by_cases hk : k = key
    · simp [hk] at hm
    · exact hs.budget k m (by simpa [Function.update_of_ne hk] using hm)

end Windows

/-- A limiter that has seen no event. -/
def Limiter.fresh (κ : Type) (cap : Nat) : Limiter κ := { map := { cap := cap } }

/-- The steps of a limiter with room for the keys of a window. -/
def RoomyStep {κ : Type} [DecidableEq κ] (window : Int) (max : Nat) :
    Limiter κ → LimiterEvent κ → Limiter κ → Prop :=
  During (LimiterStep window max) (Roomy window)

section Limits

variable {κ : Type} [DecidableEq κ] {window : Int} {max cap : Nat} {s s' : Limiter κ}

theorem Limiter.Sound.step (hs : s.Sound window max) {e : LimiterEvent κ}
    (hstep : During (RoomyStep window max) (Countable window) s e s') : s'.Sound window max := by
  obtain ⟨⟨hstep, hroomy⟩, hcount⟩ := hstep
  cases e with
  | checkAndRecord key now oldest =>
      obtain ⟨hnow, -, rfl⟩ := hstep
      exact hs.check hnow hroomy hcount
  | reset key =>
      obtain rfl := hstep
      exact hs.reset key

omit [DecidableEq κ] in
theorem Limiter.fresh_sound : (Limiter.fresh κ cap).Sound window max := by
  constructor
  · exact Int.le_refl 0
  · intro k e he
    cases he
  · intro k e he
    cases he
  · intro k m _ hm
    cases hm
  · intro k m hm
    cases hm
  · intro k m hm
    cases hm

theorem Limiter.sound_run {ops : List (LimiterEvent κ)}
    (hrun : Runs (During (RoomyStep window max) (Countable window)) (.fresh κ cap) ops s) :
    s.Sound window max :=
  hrun.invariant (Limiter.Sound window max) (fun hs hstep => hs.step hstep) fresh_sound

/-- The map stays within its cap.  With at most `cap` keys in a window and fewer
than 2^32 events of a key in its window, no more than `max` of them are
admitted, and an event is when fewer have been recorded before it. -/
theorem windowMap_limits (hcap : 0 < cap) {ops : List (LimiterEvent κ)}
    (hrun : Runs (LimiterStep window max) (.fresh κ cap) ops s) :
    s.map.len ≤ cap ∧
      (Runs (During (RoomyStep window max) (Countable window)) (.fresh κ cap) ops s →
        (∀ key m, s.meters key = some m → m.admitted ≤ max) ∧
        ∀ key now oldest s',
          During (RoomyStep window max) (Countable window) s
            (.checkAndRecord key now oldest) s' →
          (Meter.at (s.meters key) now window).recorded < max →
          (s.check window max key now oldest).2 = true) := by
  constructor
  · have hfresh : (Limiter.fresh κ cap).Capped cap := ⟨rfl, Nat.zero_le cap⟩
    exact (hrun.invariant (Limiter.Capped cap) (fun hs hstep => hs.step hcap hstep) hfresh).2
  · intro hwithin
    have hs := Limiter.sound_run hwithin
    constructor
    · intro key m hm
      rw [hs.budget key m hm]
      exact Nat.min_le_right _ _
    · rintro key now oldest s' ⟨⟨⟨hnow, -⟩, hroomy⟩, hcount⟩ hspare
      rw [hs.answer hnow hroomy hcount, decide_eq_true hspare]

end Limits

theorem windowMap_limits_first : ∃ s : Limiter String,
    Runs (LimiterStep 60 1) (.fresh String 1) [.checkAndRecord "a" 1000 none] s ∧
      s.map.len ≤ 1 ∧ (∀ key m, s.meters key = some m → m.admitted ≤ 1) := by
  have hstep : During (RoomyStep 60 1) (Countable 60) (.fresh String 1)
      (.checkAndRecord "a" 1000 none)
      ((Limiter.fresh String 1).check 60 1 "a" 1000 none).1 := by
    refine ⟨⟨⟨by decide, rfl, rfl⟩, ?_⟩, ?_⟩
    · exact Nat.le_refl 1
    · change 0 + 1 < 2 ^ 32
      decide
  have hrun := Runs.single hstep
  have hplain : Runs (LimiterStep 60 1) (.fresh String 1) [.checkAndRecord "a" 1000 none] _ :=
    .single hstep.1.1
  obtain ⟨hlen, hlimits⟩ := windowMap_limits Nat.one_pos hplain
  exact ⟨_, hplain, hlen, (hlimits hrun).1⟩

section Hammering

/-- One address has been counted `n` times within a second. -/
structure Hammered (n : Nat) (s : Limiter String) : Prop where
  sound : s.Sound 60 30
  cap : s.map.cap = 4096
  now : s.now = 1000
  alone : ∀ k m, s.meters k = some m → k = "a"
  meter : s.meters "a" = some ⟨1000, n, min n 30⟩
  touches : ∀ touch ∈ s.touches, touch.1 = "a"

def attempt : LimiterEvent String := .checkAndRecord "a" 1000 (some "a")

variable {n : Nat} {s : Limiter String}

theorem Hammered.entry (h : Hammered n s) :
    ∃ e, s.map.entries "a" = some e ∧ e.start = 1000 ∧ e.count = n := by
  cases hentry : s.map.entries "a" with
  | none =>
      have hclosed := h.sound.closed "a" _ hentry h.meter
      rw [h.now] at hclosed
      have hopen : ¬ (60 : Int) ≤ 1000 - 1000 := by decide
      exact absurd hclosed hopen
  | some e =>
      obtain ⟨m, hm, hstart, hrecorded⟩ := h.sound.kept "a" e hentry
      rw [h.meter] at hm
      cases hm
      exact ⟨e, rfl, hstart.symm, hrecorded.symm⟩

theorem Hammered.roomy (h : Hammered n s) : Roomy 60 s attempt := by
  have hsub : insert "a" (s.touched 1000 60) ⊆ {"a"} := by
    intro k hk
    rcases Finset.mem_insert.mp hk with rfl | hk
    · exact Finset.mem_singleton_self _
    · rw [Limiter.touched, List.mem_toFinset, List.mem_map] at hk
      obtain ⟨touch, htouch, rfl⟩ := hk
      rw [Finset.mem_singleton]
      exact h.touches touch (List.mem_filter.mp htouch).1
  have hcard := Finset.card_le_card hsub
  change (insert "a" (s.touched 1000 60)).card ≤ s.map.cap
  rw [Finset.card_singleton] at hcard
  rw [h.cap]
  omega

theorem Hammered.enabled (h : Hammered n s) :
    RoomyStep 60 30 s attempt (s.check 60 30 "a" 1000 (some "a")).1 := by
  refine ⟨⟨by rw [h.now], ?_, rfl⟩, h.roomy⟩
  obtain ⟨e, hentry, hstart, -⟩ := h.entry
  refine ⟨e, WindowMap.entries_live.mpr ⟨hentry, ?_⟩, ?_⟩
  · rw [hstart]
    decide
  · intro k e' he'
    have hentry' := (WindowMap.entries_live.mp he').1
    obtain ⟨m, hm, -⟩ := h.sound.kept k e' hentry'
    obtain rfl := h.alone k m hm
    rw [hentry] at hentry'
    cases hentry'
    exact Int.le_refl _

theorem Hammered.at (h : Hammered n s) :
    Meter.at (s.meters "a") 1000 60 = ⟨1000, n, min n 30⟩ := by
  rw [h.meter]
  rfl

theorem Hammered.next (h : Hammered n s) (hn : n + 1 < 2 ^ 32) :
    Hammered (n + 1) (s.check 60 30 "a" 1000 (some "a")).1 := by
  have hcount : Countable 60 s attempt := by
    change (Meter.at (s.meters "a") 1000 60).recorded + 1 < 2 ^ 32
    rw [h.at]
    exact hn
  have hsound := h.sound.step ⟨h.enabled, hcount⟩
  refine ⟨hsound, ?_, rfl, ?_, ?_, ?_⟩
  · rw [← h.cap]
    exact WindowMap.cap_makeRoom _ _ _ _
  · intro k m hm
    by_cases hk : k = "a"
    · exact hk
    · rw [Limiter.meters_check, Function.update_of_ne hk] at hm
      exact h.alone k m hm
  · have hmeter : (s.check 60 30 "a" 1000 (some "a")).1.meters "a" =
        some ((Meter.at (s.meters "a") 1000 60).next
          (s.check 60 30 "a" 1000 (some "a")).2) := by
      rw [Limiter.meters_check, Function.update_self]
    have hbudget := hsound.budget "a" _ hmeter
    rw [hmeter, h.at]
    rw [h.at] at hbudget
    simpa [Meter.next] using hbudget
  · intro touch htouch
    rcases List.mem_cons.mp htouch with rfl | hold
    · rfl
    · exact h.touches touch hold

theorem hammered_run (n : Nat) (hn : n + 1 < 2 ^ 32) : ∃ ops s,
    Runs (RoomyStep 60 30) (.fresh String 4096) ops s ∧ Hammered (n + 1) s := by
  induction n with
  | zero =>
      have hstep : RoomyStep 60 30 (.fresh String 4096) (.checkAndRecord "a" 1000 none)
          ((Limiter.fresh String 4096).check 60 30 "a" 1000 none).1 := by
        refine ⟨⟨by decide, rfl, rfl⟩, ?_⟩
        change 1 ≤ 4096
        decide
      have hcount : Countable 60 (.fresh String 4096) (.checkAndRecord "a" 1000 none) := by
        change 0 + 1 < 2 ^ 32
        decide
      refine ⟨_, _, .single hstep, Limiter.fresh_sound.step ⟨hstep, hcount⟩, rfl, rfl, ?_, rfl, ?_⟩
      · intro k m hm
        by_contra hk
        have hnone : ((Limiter.fresh String 4096).check 60 30 "a" 1000 none).1.meters k = none :=
          Function.update_of_ne hk _ _
        rw [hnone] at hm
        cases hm
      · intro touch htouch
        rw [List.mem_singleton.mp htouch]
  | succ n ih =>
      obtain ⟨ops, s, hrun, hs⟩ := ih (by omega)
      exact ⟨_, _, hrun.trans (.single hs.enabled), hs.next hn⟩

/-- The counter of an address wraps, and the next attempt is admitted beyond
the budget. -/
theorem wrapped_counter_admits : ¬ ∀ ops (s : Limiter String),
    Runs (RoomyStep 60 30) (.fresh String 4096) ops s →
      ∀ key m, s.meters key = some m → m.admitted ≤ 30 := by
  intro h
  obtain ⟨ops, s, hrun, hs⟩ := hammered_run (2 ^ 32 - 2) (by decide)
  obtain ⟨e, hentry, hstart, hcount⟩ := hs.entry
  have hsome : (s.map.entries "a").isSome = true := by
    rw [hentry]
    rfl
  have hopen : ¬ (60 : Int) ≤ 1000 - 1000 := by decide
  have hadmitted : (s.check 60 30 "a" 1000 (some "a")).2 = true := by
    simp only [Limiter.check, WindowMap.checkAndRecord, WindowMap.makeRoom_of_some hsome, hentry,
      Option.getD_some, Entry.record, hstart, hcount, if_neg hopen]
    decide
  have hmeter : (s.check 60 30 "a" 1000 (some "a")).1.meters "a" =
      some ((Meter.at (s.meters "a") 1000 60).next
        (s.check 60 30 "a" 1000 (some "a")).2) := by
    rw [Limiter.meters_check, Function.update_self]
  have hbudget := h _ _ (hrun.trans (.single hs.enabled)) "a" _ hmeter
  rw [hs.at, hadmitted] at hbudget
  revert hbudget
  decide

end Hammering

end AgentGrid.Auth
