import CanvasPage.Text.Basic

namespace CanvasPage.Config

inductive CommentState where
  | outside
  | string
  | stringEscape
  | lineComment
  | blockStart
  | block
  | blockStar
  deriving DecidableEq, Repr

def stripFrom : CommentState → Text → Text
  | _, [] => []
  | .outside, c :: rest =>
      if c == '"' then c :: stripFrom .string rest
      else if c == '/' && rest.head? == some '/' then stripFrom .lineComment rest
      else if c == '/' && rest.head? == some '*' then stripFrom .blockStart rest
      else c :: stripFrom .outside rest
  | .string, c :: rest =>
      let next := if c == '\\' then .stringEscape else if c == '"' then .outside else .string
      c :: stripFrom next rest
  | .stringEscape, c :: rest => c :: stripFrom .string rest
  | .lineComment, c :: rest =>
      if c == '\n' then c :: stripFrom .outside rest else stripFrom .lineComment rest
  | .blockStart, _ :: rest => stripFrom .block rest
  | .block, c :: rest => stripFrom (if c == '*' then .blockStar else .block) rest
  | .blockStar, c :: rest =>
      stripFrom (if c == '/' then .outside else if c == '*' then .blockStar else .block) rest

/-- Takes line and block comments out of a JSON text. Strings stay as they are. -/
def stripComments (t : Text) : Text := stripFrom .outside t

end CanvasPage.Config
