import AgentGrid.Node.CommandGuard

/-!
# The builtin command policy

A command line is cut at white space into words, its first words and a few
flags give a class of risk, and a matrix gives the decision for the class at
every level of autonomy.  `evaluate_with` knows no shell separators: a chain is
classified by the first words of its first command.
-/

namespace AgentGrid.Common

open AgentGrid.Node (isWhitespace containsText containsText_iff)

/-! ## Classes and decisions -/

inductive RiskClass
  | read
  | editWorkspace
  | executeLocal
  | networkWrite
  | gitRemote
  | packageInstall
  | destructive
deriving DecidableEq, Repr

inductive AutonomyLevel
  | l0
  | l1
  | l2
  | l3
  | l4
deriving DecidableEq, Repr

inductive PolicyDecision
  | allow
  | ask
  | deny
  | rewrite
deriving DecidableEq, Repr

/-- The names `Debug` prints. -/
def RiskClass.debug : RiskClass → String
  | .read => "Read"
  | .editWorkspace => "EditWorkspace"
  | .executeLocal => "ExecuteLocal"
  | .networkWrite => "NetworkWrite"
  | .gitRemote => "GitRemote"
  | .packageInstall => "PackageInstall"
  | .destructive => "Destructive"

def AutonomyLevel.debug : AutonomyLevel → String
  | .l0 => "L0"
  | .l1 => "L1"
  | .l2 => "L2"
  | .l3 => "L3"
  | .l4 => "L4"

structure PolicyVerdict where
  decision : PolicyDecision
  riskClass : RiskClass
  reason : String
  matchedRules : List String
deriving DecidableEq, Repr

def PolicyVerdict.failClosed (why : String) : PolicyVerdict where
  decision := .ask
  riskClass := .destructive
  reason := "policy provider unavailable (" ++ why ++ "): defaulting to ask"
  matchedRules := ["fail-closed"]

/-- `decide_for`. -/
def decideFor (level : AutonomyLevel) (riskClass : RiskClass) : PolicyDecision :=
  match level with
  | .l0 =>
      match riskClass with
      | .destructive => .deny
      | _ => .ask
  | .l1 =>
      match riskClass with
      | .read => .allow
      | .destructive => .deny
      | _ => .ask
  | .l2 =>
      match riskClass with
      | .read | .editWorkspace | .executeLocal => .allow
      | .networkWrite | .gitRemote | .packageInstall => .ask
      | .destructive => .deny
  | .l3 =>
      match riskClass with
      | .read | .editWorkspace | .executeLocal | .networkWrite | .gitRemote => .allow
      | .packageInstall => .ask
      | .destructive => .deny
  | .l4 => .allow

/-- The order allow, ask, deny; the builtin provider rewrites nothing. -/
def PolicyDecision.strictness : PolicyDecision → Nat
  | .allow => 0
  | .ask | .rewrite => 1
  | .deny => 2

/-! ## Words -/

abbrev Word := List Char

/-- The variables of the loop of `tokenize`. -/
structure Tokenizer where
  out : List Word := []
  cur : Word := []
  inQ : Option Char := none
  had : Bool := false
deriving DecidableEq, Repr

namespace Tokenizer

def push (s : Tokenizer) (c : Char) : Tokenizer := { s with cur := s.cur ++ [c] }

def flush (s : Tokenizer) : Tokenizer :=
  if s.cur ≠ [] ∨ s.had = true then { s with out := s.out ++ [s.cur], cur := [], had := false }
  else s

def step (s : Tokenizer) (c : Char) : Tokenizer :=
  match s.inQ with
  | some q => if c = q then { s with inQ := none } else s.push c
  | none =>
      if c = '\'' ∨ c = '"' then { s with inQ := some c, had := true }
      else if isWhitespace c = true then s.flush
      else s.push c

end Tokenizer

def tokenize (s : List Char) : Option (List Word) :=
  let last := s.foldl Tokenizer.step {}
  if last.inQ.isSome then none else some last.flush.out

/-! ## Classification -/

def isOneOf (names : List String) (w : Word) : Bool := names.any fun n => n.toList == w

def forceFlags : List String := ["-rf", "-fr", "-r", "-f", "--recursive", "--force"]

def recursiveFlags : List String := ["-R", "-r"]

def destroyers : List String :=
  ["dd", "mkfs", "shutdown", "reboot", "halt", "fdisk", "parted", "mkswap", "truncate"]

def owners : List String := ["chmod", "chown"]

/-- `tokens.join(" ")`. -/
def joined (words : List Word) : List Char := [' '].intercalate words

def namesDevice (words : List Word) : Bool :=
  containsText (joined words) "> /dev/".toList || containsText (joined words) ":/dev/".toList

/-- The tests of `classify` before the class of the command word. -/
def isDestructive (head : Word) (rest : List Word) : Bool :=
  (isOneOf ["rm"] head && (head :: rest).any (isOneOf forceFlags)) ||
    isOneOf destroyers head ||
    namesDevice (head :: rest) ||
    (isOneOf owners head && (head :: rest).any (isOneOf recursiveFlags))

def installers : List String := ["apt", "apt-get", "yum", "dnf", "apk", "brew", "pip", "pip3"]

def isPackageInstall (head : Word) (sub : Option Word) : Bool :=
  isOneOf installers head ||
    (isOneOf ["npm"] head && sub.any (isOneOf ["install", "i"])) ||
    (isOneOf ["cargo"] head && sub.any (isOneOf ["install", "add"]))

def remoteSubcommands : List String := ["push", "fetch", "pull", "clone", "submodule", "remote"]

def isGitRemote (head : Word) (sub : Option Word) : Bool :=
  isOneOf ["git"] head && sub.any (isOneOf remoteSubcommands)

def networkHeads : List String := ["curl", "scp", "rsync", "sftp", "wget", "ftp"]

def runners : List String :=
  ["bash", "sh", "zsh", "python", "python3", "node", "deno", "bun", "ruby", "perl", "make",
    "cmake", "cargo", "go", "npm", "npx", "yarn", "pnpm", "tsc", "javac", "java", "gcc", "cc",
    "g++", "clang", "zig", "./", "source"]

def isExecuteLocal (head : Word) : Bool :=
  isOneOf runners head || "./".toList.isPrefixOf head || "../".toList.isPrefixOf head

def editors : List String :=
  ["sed", "awk", "mv", "cp", "ln", "touch", "mkdir", "rmdir", "tee", "vim", "nvim", "nano",
    "echo", "printf"]

def readers : List String :=
  ["cat", "ls", "head", "tail", "grep", "rg", "find", "pwd", "which", "whoami", "env", "wc",
    "sort", "uniq", "diff", "file", "stat", "date"]

/-- The rest of `classify`, from the command word and the word after it. -/
def headClass (head : Word) (sub : Option Word) : RiskClass :=
  if isPackageInstall head sub then .packageInstall
  else if isOneOf ["git"] head then
    if isGitRemote head sub then .gitRemote else .editWorkspace
  else if isOneOf networkHeads head then .networkWrite
  else if isExecuteLocal head then .executeLocal
  else if isOneOf editors head then .editWorkspace
  else if isOneOf readers head then .read
  else .executeLocal

def classify (head : Word) (rest : List Word) : RiskClass :=
  if isDestructive head rest then .destructive else headClass head rest.head?

def evaluateWith (level : AutonomyLevel) (command : List Char) : PolicyVerdict :=
  match tokenize command with
  | none => .failClosed "command tokenization failed"
  | some [] => .failClosed "empty command"
  | some (head :: rest) =>
      { decision := decideFor level (classify head rest)
        riskClass := classify head rest
        reason := "builtin classifier → " ++ (classify head rest).debug ++ " @ " ++ level.debug
        matchedRules := ["class:" ++ (classify head rest).debug] }

/-! ## Words of a chain -/

namespace Tokenizer

/-- The words already out stand aside. -/
def after (done : List Word) (s : Tokenizer) : Tokenizer := { s with out := done ++ s.out }

theorem flush_after (done : List Word) (s : Tokenizer) :
    (s.after done).flush = s.flush.after done := by
  unfold flush after
  split
  · simp only [List.append_assoc]
  · rfl

theorem step_after (done : List Word) (s : Tokenizer) (c : Char) :
    (s.after done).step c = (s.step c).after done := by
  cases hq : s.inQ with
  | some q =>
      have hq' : (s.after done).inQ = some q := hq
      simp only [step, hq, hq']
      split
      · rfl
      · rfl
  | none =>
      have hq' : (s.after done).inQ = none := hq
      simp only [step, hq, hq']
      split
      · rfl
      · split
        · exact flush_after done s
        · rfl

theorem foldl_after (done : List Word) (text : List Char) (s : Tokenizer) :
    text.foldl step (s.after done) = (text.foldl step s).after done := by
  induction text generalizing s with
  | nil => rfl
  | cons c text ih => rw [List.foldl_cons, List.foldl_cons, step_after, ih]

/-- Outside quotes a blank leaves nothing but the words. -/
theorem flush_fresh {s : Tokenizer} (h : s.inQ = none) : s.flush = { out := s.flush.out } := by
  unfold flush
  split
  · rw [h]
  · rename_i hidle
    obtain ⟨hcur, hhad⟩ := not_or.mp hidle
    cases s
    simp_all

theorem step_blank {s : Tokenizer} {c : Char} (h : s.inQ = none) (hc : isWhitespace c = true) :
    s.step c = { out := s.flush.out } := by
  have hquote : ¬(c = '\'' ∨ c = '"') := by
    rintro (rfl | rfl)
    · exact absurd hc (by decide)
    · exact absurd hc (by decide)
  simp only [step, h]
  rw [if_neg hquote, if_pos hc]
  exact flush_fresh h

end Tokenizer

theorem tokenize_eq_some {s : List Char} {words : List Word} (h : tokenize s = some words) :
    (s.foldl Tokenizer.step {}).inQ = none ∧ (s.foldl Tokenizer.step {}).flush.out = words := by
  cases hq : (s.foldl Tokenizer.step {}).inQ with
  | some q => simp [tokenize, hq] at h
  | none => exact ⟨rfl, by simpa [tokenize, hq] using h⟩

theorem tokenize_blank {a b : List Char} {c : Char} {before rest : List Word}
    (hc : isWhitespace c = true) (ha : tokenize a = some before) (hb : tokenize b = some rest) :
    tokenize (a ++ c :: b) = some (before ++ rest) := by
  obtain ⟨haq, haout⟩ := tokenize_eq_some ha
  obtain ⟨hbq, hbout⟩ := tokenize_eq_some hb
  have hrun : (a ++ c :: b).foldl Tokenizer.step {} =
      (b.foldl Tokenizer.step {}).after before := by
    rw [List.foldl_append, List.foldl_cons, Tokenizer.step_blank haq hc, haout,
      ← Tokenizer.foldl_after]
    simp only [Tokenizer.after, List.append_nil]
  have hquote : ((b.foldl Tokenizer.step {}).after before).inQ = none := hbq
  unfold tokenize
  simp only [hrun, hquote, Tokenizer.flush_after]
  simp only [Tokenizer.after, hbout]
  rfl

/-- A command line with its words. -/
structure Command where
  text : List Char
  head : Word
  rest : List Word
  read : tokenize text = some (head :: rest)

inductive Separator
  | semicolon
  | both
  | either
  | pipe
  | newline
deriving DecidableEq, Repr

def Separator.symbol : Separator → List Char
  | .semicolon => [';']
  | .both => ['&', '&']
  | .either => ['|', '|']
  | .pipe => ['|']
  | .newline => ['\n']

/-- The separator with a blank on either side. -/
def Separator.text (sep : Separator) : List Char := ' ' :: (sep.symbol ++ [' '])

def Separator.words : Separator → List Word
  | .newline => []
  | sep => [sep.symbol]

theorem Separator.read (sep : Separator) : tokenize sep.symbol = some sep.words := by
  cases sep <;> decide

def Command.chain (a : Command) (sep : Separator) (b : Command) : Command where
  text := a.text ++ sep.text ++ b.text
  head := a.head
  rest := a.rest ++ (sep.words ++ b.head :: b.rest)
  read := by
    have hblank : isWhitespace ' ' = true := by decide
    have hsplit : a.text ++ sep.text ++ b.text =
        a.text ++ ' ' :: (sep.symbol ++ ' ' :: b.text) := by
      simp [Separator.text]
    rw [hsplit]
    exact tokenize_blank hblank a.read (tokenize_blank hblank sep.read b.read)

def Command.words (a : Command) : List Word := a.head :: a.rest

theorem Command.words_chain (a b : Command) (sep : Separator) :
    (a.chain sep b).words = a.words ++ (sep.words ++ b.words) := rfl

/-- The decision of the policy on a command line. -/
def Command.decision (level : AutonomyLevel) (a : Command) : PolicyDecision :=
  (evaluateWith level a.text).decision

theorem Command.decision_eq (level : AutonomyLevel) (a : Command) :
    a.decision level = decideFor level (classify a.head a.rest) := by
  simp only [Command.decision, evaluateWith, a.read]

/-! ## Classes -/

/-- What holds of every name of a list holds of a word that is one of them. -/
theorem of_isOneOf {names : List String} {p : Word → Bool} {w : Word}
    (hw : isOneOf names w = true) (h : (names.all fun n => p n.toList) = true) :
    p w = true := by
  obtain ⟨n, hn, hnw⟩ := List.any_eq_true.mp hw
  rw [← eq_of_beq hnw]
  exact List.all_eq_true.mp h n hn

theorem not_isOneOf {names others : List String} {w : Word} (hw : isOneOf names w = true)
    (h : (names.all fun n => !isOneOf others n.toList) = true) : isOneOf others w = false := by
  simpa using of_isOneOf (p := fun w => !isOneOf others w) hw h

theorem isPackageInstall_of_reader {head : Word} (sub : Option Word)
    (h : isOneOf readers head = true) : isPackageInstall head sub = false := by
  have hinstallers : isOneOf installers head = false := not_isOneOf h (by decide)
  have hnpm : isOneOf ["npm"] head = false := not_isOneOf h (by decide)
  have hcargo : isOneOf ["cargo"] head = false := not_isOneOf h (by decide)
  simp [isPackageInstall, hinstallers, hnpm, hcargo]

/-- A class is read only for the listed readers, since no earlier list names one. -/
theorem headClass_of_reader {head : Word} (sub : Option Word) (h : isOneOf readers head = true) :
    headClass head sub = .read := by
  have hgit : isOneOf ["git"] head = false := not_isOneOf h (by decide)
  have hnetwork : isOneOf networkHeads head = false := not_isOneOf h (by decide)
  have hrun : isExecuteLocal head = false := by
    simpa using of_isOneOf (p := fun w => !isExecuteLocal w) h (by decide)
  have heditors : isOneOf editors head = false := not_isOneOf h (by decide)
  simp [headClass, isPackageInstall_of_reader sub h, hgit, hnetwork, hrun, heditors, h]

/-- Git against a remote, or a program that talks to a peer. -/
def reachesOut (head : Word) (sub : Option Word) : Bool :=
  isGitRemote head sub || isOneOf networkHeads head

/-- The commands the level asks for, destructive ones apart. -/
def asks (level : AutonomyLevel) (head : Word) (sub : Option Word) : Bool :=
  match level with
  | .l0 => true
  | .l1 => !isOneOf readers head
  | .l2 => isPackageInstall head sub || reachesOut head sub
  | .l3 => isPackageInstall head sub
  | .l4 => false

theorem git_of_isGitRemote {head : Word} {sub : Option Word} (h : isGitRemote head sub = true) :
    isOneOf ["git"] head = true := by
  rw [isGitRemote, Bool.and_eq_true] at h
  exact h.1

theorem strictness_headClass (level : AutonomyLevel) (head : Word) (sub : Option Word) :
    (decideFor level (headClass head sub)).strictness = if asks level head sub then 1 else 0 := by
  by_cases hread : isOneOf readers head = true
  · have hgit : isOneOf ["git"] head = false := not_isOneOf hread (by decide)
    have hnetwork : isOneOf networkHeads head = false := not_isOneOf hread (by decide)
    rw [headClass_of_reader sub hread]
    cases level <;> simp [asks, decideFor, PolicyDecision.strictness, reachesOut, isGitRemote,
      isPackageInstall_of_reader sub hread, hread, hgit, hnetwork]
  · have hremote : isGitRemote head sub = true → isOneOf ["git"] head = true := git_of_isGitRemote
    have hpeer : isOneOf networkHeads head = true → isOneOf ["git"] head = false :=
      fun h => not_isOneOf h (by decide)
    rw [Bool.not_eq_true] at hread
    unfold headClass
    cases hinstall : isPackageInstall head sub with
    | true => cases level <;> simp [asks, decideFor, PolicyDecision.strictness, hinstall, hread]
    | false =>
        cases hgit : isOneOf ["git"] head with
        | true =>
            have hnetwork : isOneOf networkHeads head = false := by
              by_contra h
              rw [hpeer (eq_true_of_ne_false h)] at hgit
              cases hgit
            cases hout : isGitRemote head sub <;> cases level <;>
              simp [asks, decideFor, PolicyDecision.strictness, reachesOut, hinstall, hread,
                hnetwork, hout]
        | false =>
            have hout : isGitRemote head sub = false := by
              by_contra h
              rw [hremote (eq_true_of_ne_false h)] at hgit
              cases hgit
            cases hnetwork : isOneOf networkHeads head with
            | true =>
                cases level <;> simp [asks, decideFor, PolicyDecision.strictness, reachesOut,
                  hinstall, hread, hnetwork, hout]
            | false =>
                have hlocal : ∀ c, c = RiskClass.executeLocal ∨ c = .editWorkspace →
                    (decideFor level c).strictness = if asks level head sub then 1 else 0 := by
                  rintro c (rfl | rfl) <;> cases level <;>
                    simp [asks, decideFor, PolicyDecision.strictness, reachesOut, hinstall, hread,
                      hnetwork, hout]
                apply hlocal
                simp only [hread, Bool.false_eq_true, if_false]
                split
                · exact .inl rfl
                · split
                  · exact .inr rfl
                  · exact .inl rfl

theorem strictness_destructive {level : AutonomyLevel} (h : level ≠ .l4) :
    (decideFor level .destructive).strictness = 2 := by
  cases level with
  | l4 => exact absurd rfl h
  | _ => rfl

def Command.destructive (a : Command) : Bool := isDestructive a.head a.rest

def Command.asked (level : AutonomyLevel) (a : Command) : Bool := asks level a.head a.rest.head?

theorem Command.strictness_eq {level : AutonomyLevel} (h : level ≠ .l4) (a : Command) :
    (a.decision level).strictness =
      if a.destructive then 2 else if a.asked level then 1 else 0 := by
  rw [Command.decision_eq, classify, Command.destructive]
  split
  · exact strictness_destructive h
  · exact strictness_headClass level a.head a.rest.head?

theorem Command.strictness_l4 (a : Command) : (a.decision .l4).strictness = 0 := by
  rw [Command.decision_eq]
  rfl

/-! ## Chains -/

theorem joined_cons {w : Word} {words : List Word} (h : words ≠ []) :
    joined (w :: words) = w ++ ' ' :: joined words := by
  cases words with
  | nil => exact absurd rfl h
  | cons v words => simp [joined, List.intercalate_cons_cons]

theorem joined_before (before words : List Word) : joined words <:+: joined (before ++ words) := by
  induction before with
  | nil => exact List.infix_rfl
  | cons w before ih =>
      by_cases h : before ++ words = []
      · obtain ⟨rfl, rfl⟩ := List.append_eq_nil_iff.mp h
        exact ⟨[], joined [w], rfl⟩
      · rw [List.cons_append, joined_cons h]
        exact ih.trans ⟨w ++ [' '], [], by simp⟩

theorem joined_after (words after : List Word) : joined words <+: joined (words ++ after) := by
  induction words with
  | nil => exact ⟨joined after, rfl⟩
  | cons w words ih =>
      cases words with
      | nil =>
          cases after with
          | nil => exact List.prefix_rfl
          | cons v after => exact ⟨' ' :: joined (v :: after), by simp [joined]⟩
      | cons v words =>
          have hcut : joined (w :: v :: words) = w ++ ' ' :: joined (v :: words) :=
            joined_cons (List.cons_ne_nil v words)
          have hlong : joined (w :: (v :: words ++ after)) =
              w ++ ' ' :: joined (v :: words ++ after) :=
            joined_cons (List.cons_ne_nil v (words ++ after))
          rw [List.cons_append, hcut, hlong]
          obtain ⟨rest, hrest⟩ := ih
          exact ⟨rest, by rw [← hrest, List.append_assoc, List.cons_append]⟩

theorem namesDevice_mono {words all : List Word} (hin : joined words <:+: joined all)
    (h : namesDevice words = true) : namesDevice all = true := by
  rw [namesDevice, Bool.or_eq_true, containsText_iff, containsText_iff] at h ⊢
  exact h.imp (fun h => h.trans hin) (fun h => h.trans hin)

theorem namesDevice_first {a b : Command} {sep : Separator} (h : namesDevice a.words = true) :
    namesDevice (a.chain sep b).words = true :=
  namesDevice_mono (joined_after a.words _).isInfix h

theorem namesDevice_second {a b : Command} {sep : Separator} (h : namesDevice b.words = true) :
    namesDevice (a.chain sep b).words = true := by
  rw [Command.words_chain, ← List.append_assoc]
  exact namesDevice_mono (joined_before _ b.words) h

def Command.hasFlag (flags : List String) (a : Command) : Bool := a.words.any (isOneOf flags)

theorem not_flag_of_separator {sep : Separator} {flags : List String}
    (h : ([";", "&&", "||", "|"].all fun w => !isOneOf flags w.toList) = true) :
    sep.words.any (isOneOf flags) = false := by
  simp only [List.all_cons, List.all_nil, Bool.and_true, Bool.and_eq_true,
    Bool.not_eq_true'] at h
  cases sep <;> simp [Separator.words, Separator.symbol] <;> tauto

theorem hasFlag_chain {flags : List String} (a b : Command) (sep : Separator)
    (h : ([";", "&&", "||", "|"].all fun w => !isOneOf flags w.toList) = true) :
    (a.chain sep b).hasFlag flags = (a.hasFlag flags || b.hasFlag flags) := by
  rw [Command.hasFlag, Command.words_chain, List.any_append, List.any_append,
    not_flag_of_separator h, Bool.false_or]
  rfl

theorem Command.destructive_eq (a : Command) :
    a.destructive = ((isOneOf ["rm"] a.head && a.hasFlag forceFlags) || isOneOf destroyers a.head ||
      namesDevice a.words || (isOneOf owners a.head && a.hasFlag recursiveFlags)) := rfl

/-- A chain is destructive through its first command, or through a flag or a device that the
tests on the first command's word find behind it. -/
theorem destructive_chain_iff (a b : Command) (sep : Separator) :
    (a.chain sep b).destructive = true ↔
      a.destructive = true ∨
      (isOneOf ["rm"] a.head = true ∧ b.hasFlag forceFlags = true) ∨
      (isOneOf owners a.head = true ∧ b.hasFlag recursiveFlags = true) ∨
      namesDevice (a.chain sep b).words = true := by
  have hdevice := @namesDevice_first a b sep
  rw [Command.destructive_eq, Command.destructive_eq, hasFlag_chain a b sep (by decide),
    hasFlag_chain a b sep (by decide)]
  have hhead : (a.chain sep b).head = a.head := rfl
  rw [hhead]
  simp only [Bool.or_eq_true, Bool.and_eq_true]
  grind

theorem sub_chain {a b : Command} {sep : Separator} (h : a.rest ≠ []) :
    (a.chain sep b).rest.head? = a.rest.head? := List.head?_append_of_ne_nil _ h

/-- The words after the command word that `headClass` knows. -/
def subcommands : List String := ["install", "i", "add"] ++ remoteSubcommands

theorem asks_none {level : AutonomyLevel} {head : Word} {sub : Option Word}
    (h : asks level head none = true) : asks level head sub = true := by
  cases level with
  | l0 => rfl
  | l1 => exact h
  | l2 =>
      have hhead : isOneOf installers head = true ∨ isOneOf networkHeads head = true := by
        simpa [asks, isPackageInstall, reachesOut, isGitRemote] using h
      rcases hhead with hhead | hhead
      · simp [asks, isPackageInstall, hhead]
      · simp [asks, reachesOut, hhead]
  | l3 =>
      have hhead : isOneOf installers head = true := by
        simpa [asks, isPackageInstall] using h
      simp [asks, isPackageInstall, hhead]
  | l4 => exact h

theorem asked_of_first {level : AutonomyLevel} {a b : Command} {sep : Separator}
    (h : a.asked level = true) : (a.chain sep b).asked level = true := by
  unfold Command.asked at h ⊢
  by_cases hrest : a.rest = []
  · rw [hrest] at h
    exact asks_none h
  · rw [sub_chain hrest]
    exact h

theorem not_isOneOf_part {names all : List String} {w : Word} (hw : isOneOf all w = false)
    (h : (names.all fun n => isOneOf all n.toList) = true) : isOneOf names w = false := by
  by_contra hname
  rw [Bool.not_eq_false] at hname
  rw [of_isOneOf hname h] at hw
  cases hw

/-- A word that is no subcommand leaves only the command word. -/
theorem asks_of_other {level : AutonomyLevel} {head w : Word}
    (hw : isOneOf subcommands w = false) : asks level head (some w) = asks level head none := by
  have hnpm : isOneOf ["install", "i"] w = false := not_isOneOf_part hw (by decide)
  have hcargo : isOneOf ["install", "add"] w = false := not_isOneOf_part hw (by decide)
  have hgit : isOneOf remoteSubcommands w = false := not_isOneOf_part hw (by decide)
  cases level <;>
    simp [asks, isPackageInstall, reachesOut, isGitRemote, hnpm, hcargo, hgit]

/-- No subcommand is a command word that installs or reaches out. -/
theorem asks_of_subcommand {level : AutonomyLevel} {head : Word} {sub : Option Word}
    (hhead : isOneOf subcommands head = true) (hlevel : level = .l2 ∨ level = .l3) :
    asks level head sub = false := by
  have hinstallers : isOneOf installers head = false := not_isOneOf hhead (by decide)
  have hnpm : isOneOf ["npm"] head = false := not_isOneOf hhead (by decide)
  have hcargo : isOneOf ["cargo"] head = false := not_isOneOf hhead (by decide)
  have hgit : isOneOf ["git"] head = false := not_isOneOf hhead (by decide)
  have hnetwork : isOneOf networkHeads head = false := not_isOneOf hhead (by decide)
  rcases hlevel with rfl | rfl
  · simp [asks, isPackageInstall, reachesOut, isGitRemote, hinstallers, hnpm, hcargo, hgit,
      hnetwork]
  · simp [asks, isPackageInstall, hinstallers, hnpm, hcargo]

theorem isOneOf_symbol (sep : Separator) : isOneOf subcommands sep.symbol = false := by
  cases sep <;> decide

/-- The word behind a command of one word. -/
theorem chain_sub {a b : Command} {sep : Separator} (h : a.rest = []) :
    (a.chain sep b).rest.head? = some sep.symbol ∨ (a.chain sep b).rest.head? = some b.head := by
  have hrest : (a.chain sep b).rest = sep.words ++ b.head :: b.rest := by
    simp [Command.chain, h]
  rw [hrest]
  cases sep with
  | newline => exact .inr rfl
  | _ => exact .inl rfl

/-- If the level asks for the second command, it asks for the chain only through the first. -/
theorem asked_chain_iff {level : AutonomyLevel} {a b : Command} {sep : Separator}
    (hb : b.asked level = true) :
    (a.chain sep b).asked level = true ↔ a.asked level = true := by
  refine ⟨fun h => ?_, asked_of_first⟩
  by_cases hrest : a.rest = []
  · unfold Command.asked at h hb ⊢
    have hhead : (a.chain sep b).head = a.head := rfl
    rw [hhead] at h
    rw [hrest]
    have hsub : (a.chain sep b).rest.head? = some sep.symbol ∨
        (a.chain sep b).rest.head? = some b.head := chain_sub hrest
    rcases hsub with hsub | hsub
    · rw [hsub, asks_of_other (isOneOf_symbol sep)] at h
      exact h
    · rw [hsub] at h
      by_cases hword : isOneOf subcommands b.head = true
      · cases level with
        | l0 => rfl
        | l1 => exact h
        | l2 => simp [asks_of_subcommand hword (.inl rfl)] at hb
        | l3 => simp [asks_of_subcommand hword (.inr rfl)] at hb
        | l4 => exact h
      · rw [asks_of_other (Bool.not_eq_true _ ▸ hword)] at h
        exact h
  · unfold Command.asked at h ⊢
    rw [sub_chain hrest] at h
    exact h

/-- When the decision on a chain covers both commands: what the second needs, the tests on the
first command already find. -/
inductive Covered (level : AutonomyLevel) (a b : Command) (sep : Separator) : Prop
  | full (h : level = .l4)
  | harsh (h : a.destructive = true)
  | forced (hrm : isOneOf ["rm"] a.head = true) (hflag : b.hasFlag forceFlags = true)
  | recursive (howner : isOneOf owners a.head = true) (hflag : b.hasFlag recursiveFlags = true)
  | device (h : namesDevice (a.chain sep b).words = true)
  | milder (hb : b.destructive = false) (hask : b.asked level = true → a.asked level = true)

theorem first_le_chain (level : AutonomyLevel) (a b : Command) (sep : Separator) :
    (a.decision level).strictness ≤ ((a.chain sep b).decision level).strictness := by
  by_cases hlevel : level = .l4
  · subst hlevel
    rw [Command.strictness_l4]
    exact Nat.zero_le _
  · rw [Command.strictness_eq hlevel, Command.strictness_eq hlevel]
    by_cases hchain : (a.chain sep b).destructive = true
    · rw [if_pos hchain]
      split_ifs <;> omega
    · have ha : ¬a.destructive = true :=
        fun ha => hchain ((destructive_chain_iff a b sep).mpr (.inl ha))
      have hask : a.asked level = true → (a.chain sep b).asked level = true := asked_of_first
      rw [if_neg hchain, if_neg ha]
      split_ifs with h h'
      · exact Nat.le_refl 1
      · exact absurd (hask h) h'
      · exact Nat.zero_le 1
      · exact Nat.le_refl 0

theorem second_le_chain_iff (level : AutonomyLevel) (a b : Command) (sep : Separator) :
    (b.decision level).strictness ≤ ((a.chain sep b).decision level).strictness ↔
      Covered level a b sep := by
  by_cases hlevel : level = .l4
  · subst hlevel
    rw [Command.strictness_l4, Command.strictness_l4]
    exact ⟨fun _ => .full rfl, fun _ => Nat.le_refl 0⟩
  rw [Command.strictness_eq hlevel, Command.strictness_eq hlevel]
  by_cases hchain : (a.chain sep b).destructive = true
  · rw [if_pos hchain]
    refine ⟨fun _ => ?_, fun _ => by split_ifs <;> omega⟩
    rcases (destructive_chain_iff a b sep).mp hchain with h | h | h | h
    · exact .harsh h
    · exact .forced h.1 h.2
    · exact .recursive h.1 h.2
    · exact .device h
  · rw [if_neg hchain]
    constructor
    · intro hle
      have hb : b.destructive = false := by
        by_contra hb
        rw [if_pos (Bool.not_eq_false _ ▸ hb)] at hle
        split_ifs at hle <;> omega
      refine .milder hb fun hask => ?_
      have hboth : (a.chain sep b).asked level = true := by
        by_contra hnone
        rw [hb, if_neg Bool.false_ne_true, if_pos hask, if_neg hnone] at hle
        omega
      exact (asked_chain_iff hask).mp hboth
    · intro hcov
      cases hcov with
      | full h => exact absurd h hlevel
      | harsh h => exact absurd ((destructive_chain_iff a b sep).mpr (.inl h)) hchain
      | forced hrm hflag =>
          exact absurd ((destructive_chain_iff a b sep).mpr (.inr (.inl ⟨hrm, hflag⟩))) hchain
      | recursive howner hflag =>
          exact absurd ((destructive_chain_iff a b sep).mpr (.inr (.inr (.inl ⟨howner, hflag⟩))))
            hchain
      | device h =>
          exact absurd ((destructive_chain_iff a b sep).mpr (.inr (.inr (.inr h)))) hchain
      | milder hb hask =>
          rw [hb, if_neg Bool.false_ne_true]
          by_cases hb' : b.asked level = true
          · rw [if_pos hb', if_pos ((asked_chain_iff hb').mpr (hask hb'))]
          · rw [if_neg hb']
            exact Nat.zero_le _

theorem chain_covers_iff (level : AutonomyLevel) (a b : Command) (sep : Separator) :
    ((a.decision level).strictness ≤ ((a.chain sep b).decision level).strictness ∧
      (b.decision level).strictness ≤ ((a.chain sep b).decision level).strictness) ↔
    Covered level a b sep := by
  rw [second_le_chain_iff]
  exact and_iff_right (first_le_chain level a b sep)

/-- `rm -rf x`, denied alone, is allowed behind `ls`. -/
theorem chain_allowed :
    tokenize "ls".toList = some ["ls".toList] ∧
      tokenize "rm -rf x".toList = some ["rm".toList, "-rf".toList, "x".toList] ∧
      (evaluateWith .l2 "rm -rf x".toList).decision = .deny ∧
      (evaluateWith .l2 ("ls".toList ++ Separator.semicolon.text ++ "rm -rf x".toList)).decision =
        .allow := by
  decide

end AgentGrid.Common
