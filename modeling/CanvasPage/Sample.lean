import CanvasPage.Text.Basic

namespace CanvasPage.Sample

def lines : List String := [
  "import React, \x7b useEffect, useRef \x7d from 'react';",
  "",
  "interface RibbonSegment \x7b",
  "  x: number;",
  "  y: number;",
  "  angle: number;",
  "  width: number;",
  "  height: number;",
  "  depth: number;",
  "\x7d",
  "",
  "interface RibbonStrip \x7b",
  "  segments: RibbonSegment[];",
  "  segmentCount: number;",
  "  width: number;",
  "  initialize: () => void;",
  "  update: (time: number) => void;",
  "  draw: (ctx: CanvasRenderingContext2D) => void;",
  "\x7d",
  "",
  "const DramaticRibbonFold = () => \x7b",
  "  const canvasRef = useRef<HTMLCanvasElement>(null);",
  "  ",
  "  useEffect(() => \x7b",
  "    const canvas = canvasRef.current;",
  "    if (!canvas) return;",
  "    ",
  "    const ctx = canvas.getContext('2d');",
  "    if (!ctx) return;",
  "    ",
  "    canvas.width = 550;",
  "    canvas.height = 550;",
  "    ",
  "    class RibbonStrip \x7b",
  "      segments: RibbonSegment[] = [];",
  "      segmentCount: number = 30;",
  "      width: number = 100;",
  "      ",
  "      constructor() \x7b",
  "        this.initialize();",
  "      \x7d",
  "      ",
  "      initialize() \x7b",
  "        for (let i = 0; i < this.segmentCount; i++) \x7b",
  "          this.segments.push(\x7b",
  "            x: 0,",
  "            y: 0,",
  "            angle: 0,",
  "            width: this.width,",
  "            height: 20,",
  "            depth: 0",
  "          \x7d);",
  "        \x7d",
  "      \x7d",
  "      ",
  "      update(time: number) \x7b",
  "        const centerX = canvas.width / 2;",
  "        const centerY = canvas.height / 2;",
  "        ",
  "        for (let i = 0; i < this.segments.length; i++) \x7b",
  "          const t = i / (this.segments.length - 1);",
  "          const segment = this.segments[i];",
  "          ",
  "          const smoothTime = time * 0.25;",
  "          const baseAngle = t * Math.PI * 6 + smoothTime;",
  "          const foldPhase = Math.sin(smoothTime * 0.01 + t * Math.PI * 4);",
  "          const heightPhase = Math.cos(smoothTime * 0.00375 + t * Math.PI * 3);",
  "          ",
  "          const radius = 120 + foldPhase * 60;",
  "          segment.x = centerX + Math.cos(baseAngle) * radius;",
  "          segment.y = centerY + Math.sin(baseAngle) * radius + heightPhase * 30;",
  "          ",
  "          segment.angle = baseAngle + foldPhase * Math.PI * 0.5;",
  "          segment.width = this.width * (1 + foldPhase * 0.3);",
  "          segment.depth = Math.sin(baseAngle + time * 0.15);",
  "        \x7d",
  "      \x7d",
  "      ",
  "      draw(ctx: CanvasRenderingContext2D) \x7b",
  "        ctx.lineWidth = 1.5;",
  "        ctx.setLineDash([2, 2]);",
  "        ",
  "        const sortedSegments = [...this.segments].sort((a, b) => \x7b",
  "          const threshold = 0.1;",
  "          return Math.abs(a.depth - b.depth) > threshold ? a.depth - b.depth : 0;",
  "        \x7d);",
  "        ",
  "        for (let i = 0; i < sortedSegments.length - 1; i++) \x7b",
  "          const current = sortedSegments[i];",
  "          const next = sortedSegments[i + 1];",
  "          ",
  "          ctx.save();",
  "          ctx.beginPath();",
  "          ",
  "          const cos1 = Math.cos(current.angle);",
  "          const sin1 = Math.sin(current.angle);",
  "          const cos2 = Math.cos(next.angle);",
  "          const sin2 = Math.sin(next.angle);",
  "          ",
  "          const p1 = \x7b",
  "            x: current.x - sin1 * current.width/2,",
  "            y: current.y + cos1 * current.width/2",
  "          \x7d;",
  "          const p2 = \x7b",
  "            x: current.x + sin1 * current.width/2,",
  "            y: current.y - cos1 * current.width/2",
  "          \x7d;",
  "          const p3 = \x7b",
  "            x: next.x + sin2 * next.width/2,",
  "            y: next.y - cos2 * next.width/2",
  "          \x7d;",
  "          const p4 = \x7b",
  "            x: next.x - sin2 * next.width/2,",
  "            y: next.y + cos2 * next.width/2",
  "          \x7d;",
  "          ",
  "          ctx.moveTo(p1.x, p1.y);",
  "          ctx.lineTo(p2.x, p2.y);",
  "          ctx.lineTo(p3.x, p3.y);",
  "          ctx.lineTo(p4.x, p4.y);",
  "          ctx.closePath();",
  "          ",
  "          const depthFactor = (current.depth + 1) * 0.5;",
  "          const opacity = 0.6 + depthFactor * 0.4;",
  "          ",
  "          ctx.strokeStyle = 'rgba(40, 40, 40, ' + opacity + ')';",
  "          ctx.stroke();",
  "          ",
  "          ctx.beginPath();",
  "          ctx.moveTo(p1.x, p1.y);",
  "          ctx.lineTo(p3.x, p3.y);",
  "          ctx.stroke();",
  "          ",
  "          ctx.beginPath();",
  "          ctx.moveTo(p2.x, p2.y);",
  "          ctx.lineTo(p4.x, p4.y);",
  "          ctx.stroke();",
  "          ",
  "          ctx.beginPath();",
  "          ctx.moveTo(current.x, current.y);",
  "          ctx.lineTo(next.x, next.y);",
  "          ctx.strokeStyle = 'rgba(80, 80, 80, ' + (opacity * 0.7) + ')';",
  "          ctx.stroke();",
  "          ",
  "          ctx.restore();",
  "        \x7d",
  "        ",
  "        for (let i = 0; i < sortedSegments.length; i++) \x7b",
  "          const segment = sortedSegments[i];",
  "          const cos = Math.cos(segment.angle);",
  "          const sin = Math.sin(segment.angle);",
  "          ",
  "          const p1 = \x7b",
  "            x: segment.x - sin * segment.width/2,",
  "            y: segment.y + cos * segment.width/2",
  "          \x7d;",
  "          const p2 = \x7b",
  "            x: segment.x + sin * segment.width/2,",
  "            y: segment.y - cos * segment.width/2",
  "          \x7d;",
  "          ",
  "          const depthFactor = (segment.depth + 1) * 0.5;",
  "          const opacity = 0.7 + depthFactor * 0.3;",
  "          ",
  "          ctx.beginPath();",
  "          ctx.arc(p1.x, p1.y, 2, 0, Math.PI * 2);",
  "          ctx.fillStyle = 'rgba(0, 0, 0, ' + opacity + ')';",
  "          ctx.fill();",
  "          ",
  "          ctx.beginPath();",
  "          ctx.arc(p2.x, p2.y, 2, 0, Math.PI * 2);",
  "          ctx.fillStyle = 'rgba(0, 0, 0, ' + opacity + ')';",
  "          ctx.fill();",
  "          ",
  "          ctx.beginPath();",
  "          ctx.arc(segment.x, segment.y, 1.5, 0, Math.PI * 2);",
  "          ctx.fillStyle = 'rgba(40, 40, 40, ' + opacity + ')';",
  "          ctx.fill();",
  "        \x7d",
  "        ",
  "        ctx.setLineDash([]);",
  "      \x7d",
  "    \x7d",
  "    ",
  "    const ribbon = new RibbonStrip();",
  "    let time = 0;",
  "    let animationFrameId: number;",
  "    ",
  "    function animate() \x7b",
  "      ctx.fillStyle = '#F0EEE6';",
  "      ctx.fillRect(0, 0, canvas.width, canvas.height);",
  "      ",
  "      time += 0.00125;",
  "      ribbon.update(time);",
  "      ribbon.draw(ctx);",
  "      ",
  "      animationFrameId = requestAnimationFrame(animate);",
  "    \x7d",
  "    ",
  "    animate();",
  "    ",
  "    return () => \x7b",
  "      cancelAnimationFrame(animationFrameId);",
  "      ctx.clearRect(0, 0, canvas.width, canvas.height);",
  "      ribbon.segments = [];",
  "      time = 0;",
  "    \x7d;",
  "  \x7d, []);",
  "  ",
  "  return (",
  "    <div style=\x7b\x7b",
  "      margin: 0,",
  "      background: '#F0EEE6',",
  "      overflow: 'hidden',",
  "      display: 'flex',",
  "      alignItems: 'center',",
  "      justifyContent: 'center',",
  "      height: '100vh',",
  "      width: '100vw',",
  "      position: 'relative'",
  "    \x7d\x7d>",
  "      <canvas ",
  "        ref=\x7bcanvasRef\x7d ",
  "        style=\x7b\x7b ",
  "          display: 'block',",
  "          width: '550px',",
  "          height: '550px'",
  "        \x7d\x7d ",
  "      />",
  "    </div>",
  "  );",
  "\x7d;",
  "",
  "export default DramaticRibbonFold;"]

/-- A component to try the program with. -/
def text : Text := Text.join "\n" (lines.map String.toList) ++ "\n"

end CanvasPage.Sample
