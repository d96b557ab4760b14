import CanvasPage.Checked.Basic
import CanvasPage.Script.Bracket
import CanvasPage.Script.Literal

namespace CanvasPage.Checked

open Script Text

def opensLine (t : Text) (pos : Nat) (c : Char) : Bool :=
  c == '/' && byte? t (pos + 1) == some '/'

def opensComment (t : Text) (pos : Nat) (c : Char) : Bool :=
  c == '/' && byte? t (pos + 1) == some '*'

def opensString (c : Char) : Bool := isQuote c || isBacktick c

/-- The offset of the line feed that ends a line comment. -/
def lineStop? (t : Text) (pos stop : Nat) : Run (Option Nat) := do
  let rest ← cut t pos stop
  return (find? "\n" rest).map (pos + ·)

def commentStop? (t : Text) (pos stop : Nat) : Run (Option Nat) := do
  let rest ← cut t (pos + 2) stop
  return (find? "*/" rest).map (pos + 2 + · + 2)

mutual

/-- The offset of the closer of a bracket, `depth` of whose kind are open at `pos`. -/
def closeFrom (t : Text) (b : Bracket) : (fuel depth pos : Nat) → Run (Option Nat)
  | 0, _, _ => .error .endless
  | fuel + 1, depth, pos =>
      if byteLength t ≤ pos then .ok none
      else do
        let c ← byteAt t pos
        if opensString c then
          match ← stringFrom t c fuel (pos + 1) with
          | some next => closeFrom t b fuel depth next
          | none => return none
        else if opensLine t pos c then
          match ← lineStop? t pos (byteLength t) with
          | some stop => closeFrom t b fuel depth (stop + 1)
          | none => closeFrom t b fuel depth (byteLength t)
        else if opensComment t pos c then
          match ← commentStop? t pos (byteLength t) with
          | some next => closeFrom t b fuel depth next
          | none => return none
        else if c == b.opener then closeFrom t b fuel (depth + 1) (pos + 1)
        else if c == b.closer then
          match ← minus depth 1 with
          | 0 => return some pos
          | depth => closeFrom t b fuel depth (pos + 1)
        else closeFrom t b fuel depth (pos + 1)

/-- The offset after a string whose rest is at `pos`. -/
def stringFrom (t : Text) (quote : Char) : (fuel pos : Nat) → Run (Option Nat)
  | 0, _ => .error .endless
  | fuel + 1, pos =>
      if byteLength t ≤ pos then .ok none
      else do
        let c ← byteAt t pos
        if c == '\\' then stringFrom t quote fuel (pos + 2)
        else if c == '$' && isBacktick quote && byte? t (pos + 1) == some '\x7b' then
          match ← closeFrom t .brace fuel 0 (pos + 1) with
          | some close => stringFrom t quote fuel (close + 1)
          | none => return none
        else if c == '\n' && !isBacktick quote then return some pos
        else if c == quote then return some (pos + 1)
        else stringFrom t quote fuel (pos + 1)

end

/-- The offset after the string that a quote at `pos` opens. -/
def stringStop? (t : Text) (quote : Char) (pos : Nat) : Run (Option Nat) :=
  stringFrom t quote (byteLength t) (pos + 1)

/-- The offset of the delimiter that closes the one at `pos`. -/
def matchingDelimiter (t : Text) (pos : Nat) : Run (Option Nat) :=
  match (byte? t pos).bind Bracket.ofOpener? with
  | some b => closeFrom t b (byteLength t + 1) 0 pos
  | none => .ok none

def literalRangesFrom (t : Text) : (fuel pos : Nat) → Run (List Span)
  | 0, _ => .error .endless
  | fuel + 1, pos =>
      if byteLength t ≤ pos then .ok []
      else do
        let c ← byteAt t pos
        let stop? ←
          if opensString c then
            (stringStop? t c pos).map fun stop => some (stop.getD (byteLength t))
          else if opensLine t pos c then
            (lineStop? t pos (byteLength t)).map fun stop => some (stop.getD (byteLength t))
          else if opensComment t pos c then
            (commentStop? t pos (byteLength t)).map fun stop => some (stop.getD (byteLength t))
          else pure none
        match stop? with
        | some stop => (literalRangesFrom t fuel (max stop (pos + 1))).map (⟨pos, stop⟩ :: ·)
        | none => literalRangesFrom t fuel (pos + 1)

def literalRanges (t : Text) : Run (List Span) := literalRangesFrom t (byteLength t + 1) 0

end CanvasPage.Checked
