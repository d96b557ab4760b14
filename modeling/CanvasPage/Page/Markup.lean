import CanvasPage.Descriptor.Basic
import CanvasPage.Text.Letter

namespace CanvasPage.Page

def unlines (ts : List Text) : Text := ts.flatMap (· ++ ['\n'])

def escapeAttributeChar (c : Char) : Text :=
  if c == '&' then "&amp;"
  else if c == '"' then "&quot;"
  else if c == '<' then "&lt;"
  else [c]

/-- The inside of a double-quoted attribute value. -/
def escapeAttribute (t : Text) : Text := t.flatMap escapeAttributeChar

def markup (d : Descriptor) (scriptSource : Text) : Text := unlines [
  "<!DOCTYPE html>",
  "<html lang=\"en\">",
  "<head>",
  "    <meta charset=\"UTF-8\">",
  "    <meta name=\"viewport\" content=\"width=device-width, initial-scale=1.0\">",
  "    <title>" ++ d.name ++ "</title>",
  "    <style>",
  "        body \x7b",
  "            margin: 0;",
  "            padding: 0;",
  "            display: flex;",
  "            justify-content: center;",
  "            align-items: center;",
  "            min-height: 100vh;",
  "            background: " ++ d.backgroundColor ++ ";",
  "            overflow: hidden;",
  "        \x7d",
  "",
  "        canvas \x7b",
  "            display: block;",
  "        \x7d",
  "    </style>",
  "</head>",
  "<body>",
  "    <canvas id=\"" ++ escapeAttribute d.canvasId ++ "\" width=\"" ++
    Text.decimal d.canvasWidth ++ "\" height=\"" ++ Text.decimal d.canvasHeight ++ "\"></canvas>",
  "    <script src=\"" ++ escapeAttribute scriptSource ++ "\"></script>",
  "</body>",
  "</html>"]

end CanvasPage.Page
