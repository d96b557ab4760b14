import CanvasPage.Glob.Basic

namespace CanvasPage.Glob

abbrev Bytes := List UInt8

def bytes (t : Text) : Bytes := t.flatMap String.utf8EncodeChar

def slash : UInt8 := 0x2F

/-- The byte ranges that a range of characters stands for in a class. Only the last byte of the
first character and the first byte of the last one make a range. -/
def byteRanges (first last : Char) : List (UInt8 × UInt8) :=
  let single (b : UInt8) : UInt8 × UInt8 := (b, b)
  let low := String.utf8EncodeChar first
  let high := String.utf8EncodeChar last
  if first == last then low.map single
  else
    low.dropLast.map single ++
      (match low.getLast?, high.head? with
      | some a, some b => [(a, b)]
      | _, _ => []) ++
      high.tail.map single

def inClass (ranges : List (Char × Char)) (b : UInt8) : Bool :=
  (ranges.flatMap fun r => byteRanges r.1 r.2).any fun r => r.1 ≤ b && b ≤ r.2

/-- All ends of a text, itself included. -/
def suffixes : Bytes → List Bytes
  | [] => [[]]
  | b :: rest => (b :: rest) :: suffixes rest

/-- The ends of a text that follow a slash. -/
def afterSlashes : Bytes → List Bytes
  | [] => []
  | b :: rest => if b == slash then rest :: afterSlashes rest else afterSlashes rest

def dropStart (start t : Bytes) : List Bytes :=
  if start.isPrefixOf t then [t.drop start.length] else []

mutual

def isVacuous : Token → Bool
  | .alternates branches => allVacuousBranches branches
  | _ => false

def allVacuous : List Token → Bool
  | [] => true
  | t :: ts => isVacuous t && allVacuous ts

def allVacuousBranches : List (List Token) → Bool
  | [] => true
  | b :: bs => allVacuous b && allVacuousBranches bs

end

mutual

/-- What may be left of a text after a token has matched its start. -/
def rests (token : Token) (t : Bytes) : List Bytes :=
  match token with
  | .literal c => dropStart (String.utf8EncodeChar c) t
  | .any => t.tail?.toList
  | .many => suffixes t
  | .recursivePrefix => t :: afterSlashes t
  | .recursiveSuffix => (dropStart [slash] t).flatMap suffixes
  | .recursiveInfix => (dropStart [slash] t).flatMap fun rest => rest :: afterSlashes rest
  | .charClass negated ranges =>
      match t with
      | b :: rest => if inClass ranges b != negated then [rest] else []
      | [] => []
  | .alternates branches =>
      if allVacuousBranches branches then [t] else restsOfAny branches t

/-- The same for tokens one after the other and any of several texts. -/
def restsOfAll : List Token → List Bytes → List Bytes
  | [], ts => ts
  | token :: tokens, ts => restsOfAll tokens (ts.flatMap (rests token)).eraseDups

/-- The same for alternates. A branch that says nothing does not count. -/
def restsOfAny : List (List Token) → Bytes → List Bytes
  | [], _ => []
  | branch :: branches, t =>
      (if allVacuous branch then [] else restsOfAll branch [t]) ++ restsOfAny branches t

end

/-- Does a glob match a whole path? Two stars alone match every path. -/
def matchesPath (tokens : List Token) (path : Text) : Bool :=
  match tokens with
  | [.recursivePrefix] => true
  | _ => (restsOfAll tokens [bytes path]).any List.isEmpty

end CanvasPage.Glob
