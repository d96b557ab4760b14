import CanvasPage.Procedure.Basic

namespace CanvasPage

/-- What a page without a class draws: nothing, or a ribbon. -/
inductive Fallback where
  | inert
  | synthesized
  deriving DecidableEq, Repr

namespace Fallback

def key : Fallback → Text
  | inert => "inert"
  | synthesized => "synthesized"

def ofKey? (t : Text) : Option Fallback :=
  if t == inert.key then some inert
  else if t == synthesized.key then some synthesized
  else none

def ribbonInitializer : List Text := [
  "this.segments = [];",
  "this.segmentCount = 30;",
  "this.width = 100;",
  "this.initialize();"]

def ribbonInitialize : List Text := [
  "for (var i = 0; i < this.segmentCount; i++) \x7b",
  "    this.segments.push(\x7b x: 0, y: 0, angle: 0, width: this.width, depth: 0 \x7d);",
  "\x7d"]

def ribbonUpdate : List Text := [
  "var centerX = canvas.width / 2;",
  "var centerY = canvas.height / 2;",
  "",
  "for (var i = 0; i < this.segments.length; i++) \x7b",
  "    var t = i / (this.segments.length - 1);",
  "    var segment = this.segments[i];",
  "",
  "    var smoothTime = time * 0.25;",
  "    var baseAngle = t * Math.PI * 6 + smoothTime;",
  "    var foldPhase = Math.sin(smoothTime * 0.01 + t * Math.PI * 4);",
  "    var heightPhase = Math.cos(smoothTime * 0.00375 + t * Math.PI * 3);",
  "",
  "    var radius = 120 + foldPhase * 60;",
  "    segment.x = centerX + Math.cos(baseAngle) * radius;",
  "    segment.y = centerY + Math.sin(baseAngle) * radius + heightPhase * 30;",
  "    segment.angle = baseAngle + foldPhase * Math.PI * 0.5;",
  "    segment.width = this.width * (1 + foldPhase * 0.3);",
  "    segment.depth = Math.sin(baseAngle + time * 0.15);",
  "\x7d"]

def ribbonDraw : List Text := [
  "ctx.lineWidth = 1.5;",
  "",
  "for (var i = 0; i < this.segments.length - 1; i++) \x7b",
  "    var current = this.segments[i];",
  "    var next = this.segments[i + 1];",
  "    var opacity = 0.6 + (current.depth + 1) * 0.2;",
  "",
  "    ctx.beginPath();",
  "    ctx.moveTo(current.x - Math.sin(current.angle) * current.width / 2,",
  "        current.y + Math.cos(current.angle) * current.width / 2);",
  "    ctx.lineTo(next.x - Math.sin(next.angle) * next.width / 2,",
  "        next.y + Math.cos(next.angle) * next.width / 2);",
  "    ctx.moveTo(current.x + Math.sin(current.angle) * current.width / 2,",
  "        current.y - Math.cos(current.angle) * current.width / 2);",
  "    ctx.lineTo(next.x + Math.sin(next.angle) * next.width / 2,",
  "        next.y - Math.cos(next.angle) * next.width / 2);",
  "    ctx.strokeStyle = 'rgba(40, 40, 40, ' + opacity + ')';",
  "    ctx.stroke();",
  "\x7d"]

def procedures (owner : Text) : Fallback → List Procedure
  | inert => [
      .initializer owner [] [],
      .method owner "update" ["time"] [],
      .method owner "draw" ["ctx"] []]
  | synthesized => [
      .initializer owner [] (Text.join "\n" ribbonInitializer),
      .method owner "initialize" [] (Text.join "\n" ribbonInitialize),
      .method owner "update" ["time"] (Text.join "\n" ribbonUpdate),
      .method owner "draw" ["ctx"] (Text.join "\n" ribbonDraw)]

end Fallback

end CanvasPage
