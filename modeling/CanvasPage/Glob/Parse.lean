import CanvasPage.Glob.Basic

namespace CanvasPage.Glob

/-- A character class that is being read, its ranges backwards. -/
structure ClassReading where
  fresh : Bool
  negated : Bool
  ranges : List (Char × Char)
  inRange : Bool

namespace ClassReading

def start : ClassReading := ⟨true, false, [], false⟩

/-- A character that goes into the class, perhaps as the last of a range. -/
def add (k : ClassReading) (c : Char) : Except Error ClassReading :=
  match k.inRange, k.ranges with
  | true, (first, _) :: ranges =>
      if c.toNat < first.toNat then .error (.invalidRange first c)
      else .ok { k with fresh := false, ranges := (first, c) :: ranges, inRange := false }
  | _, ranges => .ok { k with fresh := false, ranges := (c, c) :: ranges, inRange := false }

/-- Reads a character other than the closing bracket. A hyphen between two characters makes a
range, and at either end of the class it stands for itself. -/
def read (k : ClassReading) (c : Char) : Except Error ClassReading :=
  if k.fresh && (c == '!' || c == '^') then .ok { k with fresh := false, negated := true }
  else if c == '-' && !k.inRange && !k.ranges.isEmpty then
    .ok { k with fresh := false, inRange := true }
  else k.add c

/-- A closing bracket that comes first stands for itself. -/
def closes (k : ClassReading) (c : Char) : Bool := c == ']' && !k.ranges.isEmpty

def token (k : ClassReading) : Token :=
  .charClass k.negated (if k.inRange then (('-', '-') :: k.ranges).reverse else k.ranges.reverse)

end ClassReading

/-- A group of alternates that is still open: the tokens before it and its finished branches, both
backwards. -/
structure Group where
  outer : List Token
  branches : List (List Token)

structure Reading where
  tokens : List Token
  groups : List Group
  inClass : Option ClassReading
  previous : Option Char

namespace Reading

def start : Reading := ⟨[], [], none, none⟩

def push (r : Reading) (token : Token) : Reading := { r with tokens := token :: r.tokens }

def after (r : Reading) (c : Char) : Reading := { r with previous := some c }

def openGroup (r : Reading) : Reading :=
  { r with tokens := [], groups := ⟨r.tokens, []⟩ :: r.groups }

def nextBranch (r : Reading) : Reading :=
  match r.groups with
  | [] => r.push (.literal ',')
  | g :: gs =>
      { r with tokens := [], groups := { g with branches := r.tokens.reverse :: g.branches } :: gs }

def closeGroup (r : Reading) : Except Error Reading :=
  match r.groups with
  | [] => .error .unopenedAlternates
  | g :: gs =>
      let branches := (r.tokens.reverse :: g.branches).reverse
      .ok { r with tokens := .alternates branches :: g.outer, groups := gs }

def finish (r : Reading) : Except Error (List Token) :=
  if r.inClass.isSome then .error .unclosedClass
  else if !r.groups.isEmpty then .error .unclosedAlternates
  else .ok r.tokens.reverse

/-- What two stars before `next` are: a recursive part if they fill a path component, else two
stars. Tells too whether the separator after them belongs to them. -/
def doubleStar (r : Reading) (next : Option Char) : Reading × Bool :=
  let plain := ((r.push .many).push .many, false)
  let inGroup := !r.groups.isEmpty
  match r.tokens with
  | [] =>
      if next == none || next == some '/' then (r.push .recursivePrefix, next == some '/')
      else plain
  | last :: tokens =>
      let startsComponent := r.previous == some '/' ||
        (inGroup && (r.previous == some ',' || r.previous == some '{'))
      let endsGlob := next == none || (inGroup && (next == some ',' || next == some '}'))
      if !startsComponent || !(endsGlob || next == some '/') then plain
      else
        let token := match last with
          | .recursivePrefix => .recursivePrefix
          | .recursiveSuffix => .recursiveSuffix
          | _ => if endsGlob then .recursiveSuffix else .recursiveInfix
        ({ r with tokens := token :: tokens }, !endsGlob)

end Reading

def parseFrom (r : Reading) : Text → Except Error (List Token)
  | [] => r.finish
  | c :: rest =>
      match r.inClass with
      | some k =>
          if k.closes c then parseFrom (({ r with inClass := none }.push k.token).after c) rest
          else (k.read c).bind fun k => parseFrom ({ r with inClass := some k }.after c) rest
      | none =>
          if c == '?' then parseFrom ((r.push .any).after c) rest
          else if c == '[' then parseFrom ({ r with inClass := some .start }.after c) rest
          else if c == '{' then parseFrom (r.openGroup.after c) rest
          else if c == '}' then r.closeGroup.bind fun r => parseFrom (r.after c) rest
          else if c == ',' then parseFrom (r.nextBranch.after c) rest
          else if c == '\\' then
            match rest with
            | [] => .error .danglingEscape
            | d :: rest => parseFrom ((r.push (.literal d)).after d) rest
          else if c == '*' then
            match rest with
            | '*' :: rest =>
                match r.doubleStar rest.head?, rest with
                | (r, true), d :: rest => parseFrom (r.after d) rest
                | (r, _), rest => parseFrom (r.after '*') rest
            | rest => parseFrom ((r.push .many).after '*') rest
          else parseFrom ((r.push (.literal c)).after c) rest

def parse (glob : Text) : Except Error (List Token) := parseFrom .start glob

end CanvasPage.Glob
