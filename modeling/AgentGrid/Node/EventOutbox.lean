import Mathlib.Data.List.DropRight
import AgentGrid.Foundation.Lines
import AgentGrid.Foundation.Transition
import AgentGrid.Node.CommandGuard
import AgentGrid.Store.Tables

/-!
# The event outbox of an attempt

One JSON line for each event, appended by `push`, dropped by `ack` through a
rewrite, and read by `pending`, which moves lines aside that do not parse.  The
file is kept as its characters and the bytes that belong to none, since every
read goes through `read_to_string`.  JSON itself is a parameter.
-/

namespace AgentGrid.Node

open AgentGrid.Foundation AgentGrid.Store

/-! ## Text files -/

inductive FileCell
  | char (c : Char)
  | byte (b : UInt8)
deriving DecidableEq

def FileCell.bytes : FileCell → Nat
  | .char c => c.utf8Size
  | .byte _ => 1

def FileCell.char? : FileCell → Option Char
  | .char c => some c
  | .byte _ => none

/-- `read_to_string`, an error unless the file is UTF-8. -/
def readToString (file : List FileCell) : Option (List Char) := file.mapM FileCell.char?

def stripCr (line : List Char) : List Char :=
  if line.getLast? = some '\r' then line.dropLast else line

/-- `str::lines`: a line that no newline ends keeps its carriage return. -/
def lines (text : List Char) : List (List Char) :=
  (pieces '\n' text).map fun piece => if piece.2 then stripCr piece.1 else piece.1

/-- `line.trim().is_empty()`. -/
def isBlankLine (line : List Char) : Bool := line.all isWhitespace

def unlines (rows : List (List Char)) : List Char := terminated '\n' rows

/-! ## Events and their lines -/

structure EventLine (V : Type) where
  seq : Nat
  ty : V
  payload : V
  enqueuedAt : Nat
deriving DecidableEq

structure Incoming (V : Type) where
  sequence : Nat
  type : EventType
  payload : V
deriving DecidableEq

/-- The JSON of a line, with what the outbox relies on: compact output is one
line that ends in a brace, it parses back, and a parser skips a carriage return
after the value. -/
structure LineCodec (V : Type) where
  typeValue : EventType → V
  typeOf : V → Option EventType
  print : EventLine V → List Char
  parse : List Char → Option (EventLine V)
  typeOf_typeValue : ∀ t, typeOf (typeValue t) = some t
  parse_print : ∀ l, parse (print l) = some l
  newline_not_mem : ∀ l, '\n' ∉ print l
  print_brace : ∀ l, (print l).getLast? = some '\x7d'
  parse_cr : ∀ text, parse (text ++ ['\r']) = parse text

variable {V : Type}

def LineCodec.incoming (codec : LineCodec V) (l : EventLine V) : Incoming V where
  sequence := l.seq
  type := (codec.typeOf l.ty).getD .status
  payload := l.payload

def LineCodec.line (codec : LineCodec V) (ev : Incoming V) (now : Nat) : EventLine V where
  seq := ev.sequence
  ty := codec.typeValue ev.type
  payload := ev.payload
  enqueuedAt := now

/-! ## The outbox -/

/-- The spool file, absent before the first write, and the lines moved aside. -/
structure EventOutbox where
  spoolLimitBytes : Nat
  file : Option (List FileCell) := none
  quarantine : List (List Char) := []
deriving DecidableEq

def terminalReservedBytes : Nat := 64 * 1024

def isTerminalEvent : EventType → Bool
  | .status | .tool | .artifact | .result | .error => true
  | .stdout | .stderr | .metric => false

namespace EventOutbox

/-- Whether the spool is at the limit for an event of this type. -/
def full (o : EventOutbox) (type : EventType) : Bool :=
  match o.file with
  | none => false
  | some file =>
      let effectiveLimit :=
        if isTerminalEvent type then min (o.spoolLimitBytes + terminalReservedBytes) (2 ^ 64 - 1)
        else o.spoolLimitBytes
      decide (0 < o.spoolLimitBytes) && decide (effectiveLimit ≤ (file.map FileCell.bytes).sum)

/-- `none` is `PushError::SpoolFull`.  `quotaFull` is the answer of the cached
scan over all spools. -/
def push (codec : LineCodec V) (o : EventOutbox) (ev : Incoming V) (now : Nat)
    (quotaFull : Bool) : Option EventOutbox :=
  if quotaFull || o.full ev.type then none
  else
    some { o with
      file := some (o.file.getD [] ++
        (codec.print (codec.line ev now) ++ ['\n']).map FileCell.char) }

/-- The pending events; `none` is an error. -/
def pending (codec : LineCodec V) (o : EventOutbox) :
    Option (EventOutbox × List (Incoming V)) :=
  match o.file with
  | none => some (o, [])
  | some file =>
      (readToString file).map fun content =>
        let rows := (lines content).filter fun line => !isBlankLine line
        let clean := rows.filter fun line => (codec.parse line).isSome
        let quarantined := rows.filter fun line => (codec.parse line).isNone
        let out := rows.filterMap fun line => (codec.parse line).map codec.incoming
        if quarantined.isEmpty then (o, out)
        else
          ({ o with
              file := some ((unlines clean).map FileCell.char)
              quarantine := o.quarantine ++ quarantined }, out)

/-- The rewrite keeps what does not parse. -/
def ack (codec : LineCodec V) (o : EventOutbox) (acked : List Nat) : Option EventOutbox :=
  match o.file with
  | none => some o
  | some file =>
      (readToString file).map fun content =>
        let survivors := (lines content).filter fun line =>
          !isBlankLine line && (codec.parse line).all fun l => !acked.contains l.seq
        { o with file := some ((unlines survivors).map FileCell.char) }

/-- Damage: a line put after the first `k` lines, with or without its newline. -/
def inject (o : EventOutbox) (k : Nat) (line : List FileCell) (ended : Bool) : EventOutbox :=
  { o with
    file := some (insertAfter (.char '\n') k
      (line ++ if ended then [.char '\n'] else []) (o.file.getD [])) }

end EventOutbox

/-! ## Sessions -/

/-- A line without its carriage returns at the end. -/
def bare (line : List Char) : List Char := line.rdropWhile (· == '\r')

/-- An outbox in use.  `queue` holds the events pushed and not acknowledged, and
`injected` the damaged lines put in, blank ones apart. -/
structure Session (V : Type) where
  outbox : EventOutbox
  queue : List (Incoming V) := []
  injected : List (List Char) := []

inductive SpoolOp (V : Type)
  | push (ev : Incoming V) (now : Nat) (quotaFull : Bool)
  | ack (acked : List Nat)
  | pending
  | reopen
  | inject (k : Nat) (line : List FileCell) (ended : Bool)

def spoolStep (codec : LineCodec V) (s : Session V) : SpoolOp V → Session V
  | .push ev now quotaFull =>
      match s.outbox.push codec ev now quotaFull with
      | none => s
      | some outbox => { s with outbox, queue := s.queue ++ [ev] }
  | .ack acked =>
      { s with
        outbox := (s.outbox.ack codec acked).getD s.outbox
        queue := s.queue.filter fun ev => !acked.contains ev.sequence }
  | .pending =>
      { s with outbox := ((s.outbox.pending codec).map Prod.fst).getD s.outbox }
  | .reopen => s
  | .inject k line ended =>
      { s with
        outbox := s.outbox.inject k line ended
        injected := s.injected ++
          ((readToString line).toList.filter fun text => !isBlankLine text).map bare }

def SpoolStep (codec : LineCodec V) (s : Session V) (op : SpoolOp V) (s' : Session V) :
    Prop :=
  s' = spoolStep codec s op

/-- What is injected is one line that is no event. -/
def SpoolOp.Corrupt (codec : LineCodec V) : SpoolOp V → Prop
  | .inject _ line _ => .char '\n' ∉ line ∧
      ∀ text, readToString line = some text → codec.parse text = none
  | _ => True

/-- What is injected is text and ends in a newline. -/
def SpoolOp.Whole : SpoolOp V → Prop
  | .inject _ line ended => ended = true ∧ (readToString line).isSome = true
  | _ => True

end AgentGrid.Node
