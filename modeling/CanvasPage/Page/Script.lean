import CanvasPage.Page.Markup

namespace CanvasPage.Page

/-- The inside of a single-quoted script string. -/
def escapeString (t : Text) : Text :=
  t.flatMap fun c => if c == '\\' || c == '\'' then ['\\', c] else [c]

theorem escapeString_cons (c : Char) (t : Text) : escapeString (c :: t) =
    (if c == '\\' || c == '\'' then ['\\', c] else [c]) ++ escapeString t :=
  List.flatMap_cons

def indentLine (indent line : Text) : Text :=
  if Text.allBlank line then [] else indent ++ line

def indentLines (indent body : Text) : Text := unlines ((Text.lines body).map (indentLine indent))

def functionHeader (p : Procedure) : Text := "function(" ++ Text.join ", " p.params ++ ") \x7b"

/-- A procedure as a function expression between `start` and `stop` at an indentation. -/
def functionText (indent start stop : Text) (p : Procedure) : Text :=
  let block : Text :=
    if Text.allBlank p.body then []
    else '\n' :: indentLines (indent ++ "    ") p.body ++ indent
  indent ++ start ++ functionHeader p ++ block ++ "\x7d" ++ stop ++ "\n"

def assignedFunction (target : Text) (p : Procedure) : Text :=
  functionText "    " (target ++ " = ") ";" p

/-- What instance members of an owner are attached to, or static ones. -/
def memberTarget (owner : Text) (isStatic : Bool) : Text :=
  if isStatic then owner else owner ++ ".prototype"

def accessorText (p : Procedure) : Text :=
  let key : Text := match p.kind with
    | .setter _ => "set"
    | _ => "get"
  functionText "        " (key ++ ": ") "," p

/-- Has a procedure a share in the property `name` on the same side as `isStatic` says? -/
def isAccessorOf (name : Text) (isStatic : Bool) (p : Procedure) : Bool :=
  p.isAccessor && p.isStatic == isStatic && p.name == name

def propertyText (owner name : Text) (isStatic : Bool) (procedures : List Procedure) : Text :=
  "    Object.defineProperty(" ++ memberTarget owner isStatic ++ ", '" ++ escapeString name ++
    "', \x7b\n" ++ (procedures.filter (isAccessorOf name isStatic)).flatMap accessorText ++
    "        configurable: true\n    \x7d);\n"

/-- The expression of a static value, its later lines indented. -/
def expressionText (body : Text) : Text :=
  match Text.lines body with
  | [] => "undefined"
  | lines => Text.join "\n    " lines

def staticValueText (owner : Text) (p : Procedure) : Text :=
  "    " ++ owner ++ "." ++ p.name ++ " = " ++ expressionText p.body ++ ";\n"

def memberText (owner : Text) (procedures : List Procedure) (p : Procedure) : Text :=
  match p.kind with
  | .getter _ | .setter _ => propertyText owner p.name p.isStatic procedures
  | .staticValue _ => staticValueText owner p
  | _ => assignedFunction (memberTarget owner p.isStatic ++ "." ++ p.name) p

/-- The procedures that get a text of their own: of the accessors of one property, the first. -/
def leadingMembers : List Procedure → List Procedure
  | [] => []
  | p :: ps =>
      if p.isAccessor then p :: (leadingMembers ps).filter (!isAccessorOf p.name p.isStatic ·)
      else p :: leadingMembers ps

def ownerText (d : Descriptor) (owner : Text) : Text :=
  let procedures := d.proceduresOf owner
  let target := "var " ++ owner
  "\n    // " ++ owner ++ " definition\n" ++
    (match procedures.find? (·.isInitializer) with
    | some p => assignedFunction target p
    | none => assignedFunction target (.initializer owner [] [])) ++
    (leadingMembers (procedures.filter (!·.isInitializer))).flatMap fun p =>
      '\n' :: memberText owner procedures p

def headText (d : Descriptor) : Text := unlines [
  "// " ++ d.name ++ " - standalone canvas animation",
  "document.addEventListener('DOMContentLoaded', function() \x7b",
  "    var canvas = document.getElementById('" ++ escapeString d.canvasId ++ "');",
  "    if (!canvas) return;",
  "",
  "    var ctx = canvas.getContext('2d');",
  "    if (!ctx) return;",
  "",
  "    canvas.width = " ++ Text.decimal d.canvasWidth ++ ";",
  "    canvas.height = " ++ Text.decimal d.canvasHeight ++ ";"]

def overridesText (d : Descriptor) : Text := unlines [
  "",
  "    var config = \x7b",
  "        backgroundColor: '" ++ escapeString d.backgroundColor ++ "',",
  "        transparentBackground: false",
  "    \x7d;",
  "",
  "    var urlParams = new URLSearchParams(window.location.search);",
  "    if (urlParams.has('bg')) \x7b",
  "        config.backgroundColor = '#' + urlParams.get('bg');",
  "        document.body.style.background = config.backgroundColor;",
  "    \x7d",
  "    if (urlParams.get('transparent') === 'true') \x7b",
  "        config.transparentBackground = true;",
  "        document.body.style.background = 'transparent';",
  "    \x7d"]

/-- How a frame begins: its background, which the page address may override. -/
def backgroundText (d : Descriptor) (overrides : Bool) : Text :=
  if overrides then unlines [
    "        if (config.transparentBackground) \x7b",
    "            ctx.clearRect(0, 0, canvas.width, canvas.height);",
    "        \x7d else \x7b",
    "            ctx.fillStyle = config.backgroundColor;",
    "            ctx.fillRect(0, 0, canvas.width, canvas.height);",
    "        \x7d",
    ""]
  else unlines [
    "        ctx.fillStyle = '" ++ escapeString d.backgroundColor ++ "';",
    "        ctx.fillRect(0, 0, canvas.width, canvas.height);",
    ""]

def timeStep : Text := "0.00125"

def loopText (d : Descriptor) (primary : Text) (overrides : Bool) : Text :=
  unlines [
    "",
    "    // Animation loop",
    "    var animation = new " ++ primary ++ "();",
    "    var time = 0;",
    "    var animationFrameId;",
    "",
    "    function animate() \x7b"] ++
  backgroundText d overrides ++
  unlines ["        time += " ++ timeStep ++ ";"] ++
  (if d.ownerDefines primary "update" then unlines ["        animation.update(time);"] else []) ++
  (if d.ownerDefines primary "draw" then unlines ["        animation.draw(ctx);"] else []) ++
  unlines [
    "",
    "        animationFrameId = requestAnimationFrame(animate);",
    "    \x7d",
    "",
    "    animate();",
    "",
    "    // Cleanup on page unload",
    "    window.addEventListener('beforeunload', function() \x7b",
    "        cancelAnimationFrame(animationFrameId);",
    "    \x7d);"]

/-- The script that declares every owner and animates the primary one. -/
def script (d : Descriptor) (overrides : Bool) : Text :=
  headText d ++ (if overrides then overridesText d else []) ++ d.owners.flatMap (ownerText d) ++
    (match d.primaryOwner? with
    | some primary => loopText d primary overrides
    | none => []) ++
    unlines ["\x7d);"]

structure Artifacts where
  markupText : Text
  scriptText : Text
  markupFileName : Text
  scriptFileName : Text
  deriving DecidableEq, Repr

def artifacts (d : Descriptor) (overrides : Bool) : Artifacts where
  markupText := markup d d.scriptSource
  scriptText := script d overrides
  markupFileName := d.markupFileName
  scriptFileName := d.scriptFileName

end CanvasPage.Page
