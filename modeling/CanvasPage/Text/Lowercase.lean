import CanvasPage.Text.Letter
import CanvasPage.Text.CaseRanges

namespace CanvasPage.Text

def isCased (c : Char) : Bool :=
  if c.toNat < 128 then isAsciiLetter c else inRanges casedRanges c

def isCaseIgnorable (c : Char) : Bool :=
  if c.toNat < 128 then c == '\'' || c == '.' || c == ':' || c == '^' || c.toNat == 96
  else inRanges caseIgnorableRanges c

def CaseRun.covers (r : CaseRun) (c : Char) : Bool :=
  r.first ≤ c.toNat && c.toNat ≤ r.last && (c.toNat - r.first) % r.step == 0

/-- The lower case of one character, wherever it stands. -/
def lowerChar (c : Char) : Text :=
  if c.toNat < 128 then [toAsciiLower c]
  else if c.toNat == 0x130 then [Char.ofNat 0x69, Char.ofNat 0x307]
  else match caseRuns.find? (·.covers c) with
    | some r => [Char.ofNat (c.toNat + r.shift).toNat]
    | none => [c]

/-- Is the nearest character that is not ignorable a cased one? -/
def casedNext (t : Text) : Bool := (t.dropWhile isCaseIgnorable).head?.any isCased

/-- Lower case. A capital sigma that ends a word becomes the final form. -/
def toLower (t : Text) : Text :=
  go [] t
where
  go (before : Text) : Text → Text
    | [] => []
    | c :: rest =>
        (if c.toNat == 0x3A3 then
          [Char.ofNat (if casedNext before && !casedNext rest then 0x3C2 else 0x3C3)]
        else lowerChar c) ++ go (c :: before) rest

end CanvasPage.Text
